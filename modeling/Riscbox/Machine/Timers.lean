import Riscbox.Cpu.Interrupts
import Riscbox.Machine.Machine
import Riscbox.Machine.Rtc
import Riscbox.Machine.Uart

/-!
# The timers of the machine

The machine timer, the supervisor timer and the alarm of the clock, and the distance to
the next of them.
-/

namespace Riscbox
namespace Virtio

variable {ε π : Type}

def VirtioSlot.transport : VirtioSlot ε π → VirtioTransport
  | .storageBlock mmio => mmio.transport
  | .console mmio => mmio.transport
  | .network mmio => mmio.transport
  | .nineP mmio => mmio.transport
  | .input mmio => mmio.transport
  | .entropy mmio => mmio.transport

def VirtioTransport.irq (transport : VirtioTransport) : Bool :=
  decide (transport.interruptStatus ≠ 0)

def VirtioSlot.irq (slot : VirtioSlot ε π) : Bool := slot.transport.irq

end Virtio

namespace Cpu

open Platform (Aclint GoldfishRtc Plic Uart16550)
open Virtio (FinishStatus VirtioSlot)

variable {ε π : Type} {t : Target}

/-- The other parts of `PlatformBus`. -/
structure Peripherals (ε π : Type) where
  uart : Uart16550
  rtc : GoldfishRtc
  finisher : FinishStatus
  virtio : List (VirtioSlot ε π)
  guestRtcNs : BitVec 64
  hostServiceRequested : Bool
  timerReprogrammed : Bool

/-- The platform bus and the core of a machine. -/
abbrev Board (t : Target) (ε π : Type) : Type := TinyemuCore t (PlatformBus (Peripherals ε π))

/-- The sources 10 and 11 are those of the serial port and the clock. -/
def virtioIrq (index : Nat) : Nat :=
  let irq := index + 1
  let irq := if irq ≥ 10 then irq + 1 else irq
  if irq ≥ 11 then irq + 1 else irq

/-- The lines of the slots from `index` on. -/
def setVirtioIrqs (plic : Plic) (index : Nat) : List (VirtioSlot ε π) → Plic
  | [] => plic
  | device :: rest => setVirtioIrqs (plic.setIrq (virtioIrq index) device.irq) (index + 1) rest

def PlatformBus.updateDeviceIrqs (b : PlatformBus (Peripherals ε π)) :
    PlatformBus (Peripherals ε π) :=
  let plic := b.plic.setIrq 10 b.rest.uart.irq
  let plic := plic.setIrq 11 b.rest.rtc.irq
  { b with plic := setVirtioIrqs plic 0 b.rest.virtio }

namespace Board

/-- `u64::MAX` stands for a compare value that is not set. -/
def unset : BitVec 64 := BitVec.allOnes 64

def syncInterrupts (c : Board t ε π) : Board t ε π := c.setInterrupts c.platform.interruptMask

def presentGuestClocks (ticks ns : BitVec 64) (c : Board t ε π) : Board t ε π :=
  let rest := { c.platform.rest with
    guestRtcNs := ns
    rtc := c.platform.rest.rtc.refreshAlarm ns }
  let bus := { c.platform with guestTimerTicks := ticks, rest := rest }
  (syncInterrupts { c with platform := bus.updateDeviceIrqs }).setGuestTimerTicks ticks

/-- `tinyemu_core_stimecmp`. -/
def stimecmp (c : Board t ε π) : BitVec 64 :=
  if c.cpu.mip &&& mipStip ≠ 0 then unset
  else if c.cpu.menvcfg &&& menvcfgStce = 0 then unset
  else c.cpu.stimecmp

def now (c : Board t ε π) : BitVec 64 := c.platform.guestTimerTicks

def aclintDelay (c : Board t ε π) : Option Nat :=
  if c.platform.aclint.timecmp ≠ unset ∧ ¬c.platform.aclint.timerInterrupt c.now then
    some (c.platform.aclint.timecmp.toNat - c.now.toNat)
  else none

def supervisorDelay (c : Board t ε π) : Option Nat :=
  if c.stimecmp ≠ unset ∧ c.stimecmp > c.now then some (c.stimecmp.toNat - c.now.toNat)
  else none

def alarmDelay (c : Board t ε π) : Option Nat :=
  (c.platform.rest.rtc.alarmRemainingGuestTicks c.platform.rest.guestRtcNs).filter (0 < ·)

/-- A timer that waits may shorten the delay. -/
def soonest (delay : Nat) (timer : Option Nat) : Nat := timer.elim delay (min delay)

def delays (c : Board t ε π) : List (Option Nat) :=
  [c.aclintDelay, c.supervisorDelay, c.alarmDelay]

def nextTimerRemainingGuestTicks (c : Board t ε π) : Option Nat :=
  let delay := c.delays.foldl soonest unset.toNat
  if delay = unset.toNat then none else some delay

/-! ## The least of the delays -/

theorem foldl_soonest_le (timers : List (Option Nat)) :
    ∀ delay, timers.foldl soonest delay ≤ delay ∧
      ∀ due, some due ∈ timers → timers.foldl soonest delay ≤ due := by
  induction timers with
  | nil =>
    intro delay
    exact ⟨Nat.le_refl _, fun due hdue => absurd hdue List.not_mem_nil⟩
  | cons timer timers ih =>
    intro delay
    obtain ⟨hle, hleast⟩ := ih (soonest delay timer)
    have hsoonest : soonest delay timer ≤ delay := by
      cases timer with
      | none => exact Nat.le_refl _
      | some due => exact Nat.min_le_left _ _
    refine ⟨Nat.le_trans hle hsoonest, fun due hdue => ?_⟩
    rcases List.mem_cons.mp hdue with rfl | hdue
    · exact Nat.le_trans hle (Nat.min_le_right _ _)
    · exact hleast due hdue

theorem foldl_soonest_mem (timers : List (Option Nat)) :
    ∀ delay, timers.foldl soonest delay = delay ∨
      some (timers.foldl soonest delay) ∈ timers := by
  induction timers with
  | nil =>
    intro delay
    exact .inl rfl
  | cons timer timers ih =>
    intro delay
    rcases ih (soonest delay timer) with hsame | hmem
    · rw [List.foldl_cons, hsame]
      cases timer with
      | none => exact .inl rfl
      | some due =>
        rcases min_choice delay due with hmin | hmin
        · exact .inl hmin
        · right
          show some (min delay due) ∈ _
          rw [hmin]
          exact List.mem_cons_self
    · exact .inr (List.mem_cons_of_mem _ hmem)

variable {c : Board t ε π} {ticks later delay due : Nat}

theorem next_eq_some (h : c.nextTimerRemainingGuestTicks = some delay) :
    some delay ∈ c.delays ∧ ∀ due, some due ∈ c.delays → delay ≤ due := by
  unfold nextTimerRemainingGuestTicks at h
  dsimp only at h
  split at h
  · cases h
  · next hne =>
    cases h
    rcases foldl_soonest_mem c.delays unset.toNat with hunset | hmem
    · exact absurd hunset hne
    · exact ⟨hmem, (foldl_soonest_le c.delays _).2⟩

theorem next_eq_none (h : c.nextTimerRemainingGuestTicks = none) (hdue : some due ∈ c.delays) :
    unset.toNat ≤ due := by
  unfold nextTimerRemainingGuestTicks at h
  dsimp only at h
  split at h
  · next heq =>
    rw [← heq]
    exact (foldl_soonest_le c.delays _).2 due hdue
  · cases h

/-! ## The timers that are raised -/

def aclintTimer (c : Board t ε π) : Prop := c.cpu.mip.getLsbD 7 = true

def supervisorTimer (c : Board t ε π) : Prop :=
  c.cpu.menvcfg &&& menvcfgStce ≠ 0 ∧ c.cpu.mip &&& mipStip ≠ 0

def rtcInterrupt (c : Board t ε π) : Prop := c.platform.rest.rtc.irq = true

/-- The clocks show `ticks`, and every timer that is due by then is raised. -/
structure Presented (ticks : Nat) (c : Board t ε π) : Prop where
  small : 100 * ticks < 2 ^ 64
  now : c.now = BitVec.ofNat 64 ticks
  ns : c.platform.rest.guestRtcNs = BitVec.ofNat 64 (100 * ticks)
  aclint : c.aclintTimer ↔ c.platform.aclint.timecmp.toNat ≤ ticks
  supervisor : c.supervisorTimer ↔
    c.cpu.menvcfg &&& menvcfgStce ≠ 0 ∧ c.cpu.stimecmp.toNat ≤ ticks
  alarm : ¬c.platform.rest.rtc.Due c.platform.rest.guestRtcNs

variable {ticks later delay due : Nat}

/-- What the clocks of the machine leave as it is. -/
structure Kept (c c' : Board t ε π) : Prop where
  aclint : c'.platform.aclint = c.platform.aclint
  menvcfg : c'.cpu.menvcfg = c.cpu.menvcfg
  stimecmp : c'.cpu.stimecmp = c.cpu.stimecmp
  rtc : c'.platform.rest.rtc = c.platform.rest.rtc.checkAlarm c'.platform.rest.guestRtcNs

theorem kept_presentGuestClocks (c : Board t ε π) (ticks ns : BitVec 64) :
    Kept c (c.presentGuestClocks ticks ns) := by
  have hsame := updateTime_sameControls
    (c.cpu.setInterrupts (c.presentGuestClocks ticks ns).platform.interruptMask) ticks
  exact ⟨rfl, hsame.menvcfg, hsame.stimecmp, rfl⟩

theorem aclintTimer_presentGuestClocks (c : Board t ε π) (ticks ns : BitVec 64) :
    (c.presentGuestClocks ticks ns).aclintTimer ↔ ticks ≥ c.platform.aclint.timecmp := by
  have hupdate := updateTime_bit
    (c.cpu.setInterrupts (c.presentGuestClocks ticks ns).platform.interruptMask) ticks
    (show 7 ≠ 5 by decide)
  have hlines := setInterrupts_bit c.cpu (c.presentGuestClocks ticks ns).platform.interruptMask
    (show externalLines.getLsbD 7 = true by decide)
  have hmask := (interruptMask_bit (c.presentGuestClocks ticks ns).platform).2.1
  have hbit : (c.presentGuestClocks ticks ns).cpu.mip.getLsbD 7 =
      (c.presentGuestClocks ticks ns).platform.aclint.timerInterrupt ticks :=
    (hupdate.trans hlines).trans hmask
  show (c.presentGuestClocks ticks ns).cpu.mip.getLsbD 7 = true ↔ _
  rw [hbit]
  exact decide_eq_true_iff

theorem supervisorTimer_presentGuestClocks (c : Board t ε π) (ticks ns : BitVec 64) :
    (c.presentGuestClocks ticks ns).supervisorTimer ↔
      c.cpu.menvcfg &&& menvcfgStce ≠ 0 ∧ ticks ≥ c.cpu.stimecmp := by
  have hline : (c.presentGuestClocks ticks ns).cpu.TimerLine ticks :=
    CpuState.updateTime_timerLine _ ticks
  have hkept := kept_presentGuestClocks c ticks ns
  unfold CpuState.TimerLine at hline
  unfold supervisorTimer
  rw [hkept.menvcfg, hkept.stimecmp] at hline
  rw [hkept.menvcfg]
  exact and_congr_right hline

theorem presented_presentGuestClocks (c : Board t ε π) (hsmall : 100 * ticks < 2 ^ 64) :
    (c.presentGuestClocks (BitVec.ofNat 64 ticks) (BitVec.ofNat 64 (100 * ticks))).Presented
      ticks := by
  have hticks : (BitVec.ofNat 64 ticks).toNat = ticks := by
    rw [BitVec.toNat_ofNat]
    omega
  have haclint := aclintTimer_presentGuestClocks c (BitVec.ofNat 64 ticks)
    (BitVec.ofNat 64 (100 * ticks))
  have hsupervisor := supervisorTimer_presentGuestClocks c (BitVec.ofNat 64 ticks)
    (BitVec.ofNat 64 (100 * ticks))
  have hkept := kept_presentGuestClocks c (BitVec.ofNat 64 ticks)
    (BitVec.ofNat 64 (100 * ticks))
  rw [ge_iff_le, BitVec.le_def, hticks] at haclint hsupervisor
  rw [← hkept.menvcfg, ← hkept.stimecmp] at hsupervisor
  exact ⟨hsmall, rfl, rfl, haclint, hsupervisor, GoldfishRtc.not_due_checkAlarm _ _⟩

/-! ## The timers that wait -/

section Waiting

variable {c' : Board t ε π} (h : c.Presented ticks)
include h

theorem Presented.now_toNat : c.now.toNat = ticks := by
  have hsmall := h.small
  rw [h.now, BitVec.toNat_ofNat]
  omega

theorem Presented.aclintDelay_eq_some :
    c.aclintDelay = some due ↔
      c.platform.aclint.timecmp ≠ unset ∧ ticks < c.platform.aclint.timecmp.toNat ∧
        c.platform.aclint.timecmp.toNat = ticks + due := by
  have hnow := h.now_toNat
  have hwaits : ¬c.platform.aclint.timerInterrupt c.now ↔
      ticks < c.platform.aclint.timecmp.toNat := by
    unfold Aclint.timerInterrupt
    rw [decide_eq_true_iff, ge_iff_le, BitVec.le_def, hnow, Nat.not_le]
  unfold aclintDelay
  rw [Option.ite_none_right_eq_some, Option.some_inj, hwaits, hnow]
  constructor
  · rintro ⟨⟨hset, hwait⟩, hdue⟩
    exact ⟨hset, hwait, by omega⟩
  · rintro ⟨hset, hwait, hdue⟩
    exact ⟨⟨hset, hwait⟩, by omega⟩

/-- A timer line that is set hides the compare value, which then is in the past. -/
theorem Presented.stimecmp_cases :
    (c.stimecmp = unset ∧
        ¬(c.cpu.menvcfg &&& menvcfgStce ≠ 0 ∧ ticks < c.cpu.stimecmp.toNat)) ∨
      c.stimecmp = c.cpu.stimecmp ∧ c.cpu.menvcfg &&& menvcfgStce ≠ 0 := by
  have hline := h.supervisor
  unfold supervisorTimer at hline
  unfold Board.stimecmp
  by_cases hstce : c.cpu.menvcfg &&& menvcfgStce = 0
  · rw [if_pos hstce, ite_self]
    exact .inl ⟨rfl, fun hset => hset.1 hstce⟩
  by_cases hraised : c.cpu.mip &&& mipStip = 0
  · rw [if_neg (not_not_intro hraised), if_neg hstce]
    exact .inr ⟨rfl, hstce⟩
  · rw [if_pos hraised]
    have hpast := (hline.mp ⟨hstce, hraised⟩).2
    exact .inl ⟨rfl, fun hset => absurd hset.2 (Nat.not_lt.mpr hpast)⟩

theorem Presented.supervisorDelay_eq_some :
    c.supervisorDelay = some due ↔
      c.cpu.menvcfg &&& menvcfgStce ≠ 0 ∧ c.cpu.stimecmp ≠ unset ∧
        ticks < c.cpu.stimecmp.toNat ∧ c.cpu.stimecmp.toNat = ticks + due := by
  unfold supervisorDelay
  rw [Option.ite_none_right_eq_some, Option.some_inj, gt_iff_lt, BitVec.lt_def, h.now_toNat]
  rcases h.stimecmp_cases with ⟨hunset, hnone⟩ | ⟨hset, hstce⟩
  · rw [hunset]
    constructor
    · exact fun hwaits => absurd rfl hwaits.1.1
    · exact fun hwaits => absurd ⟨hwaits.1, hwaits.2.2.1⟩ hnone
  · rw [hset]
    constructor
    · rintro ⟨⟨hne, hwait⟩, hdue⟩
      exact ⟨hstce, hne, hwait, by omega⟩
    · rintro ⟨-, hne, hwait, hdue⟩
      exact ⟨⟨hne, hwait⟩, by omega⟩

theorem Presented.alarmDelay_eq_some :
    c.alarmDelay = some due ↔
      c.platform.rest.rtc.alarmRunning = true ∧
        (c.platform.rest.rtc.alarm.toNat -
          (c.platform.rest.rtc.count c.platform.rest.guestRtcNs).toNat + 99) / 100 = due := by
  have hwaits := h.alarm
  unfold GoldfishRtc.Due at hwaits
  rw [BitVec.le_def] at hwaits
  unfold alarmDelay GoldfishRtc.alarmRemainingGuestTicks
  by_cases hrunning : c.platform.rest.rtc.alarmRunning = true
  · have hfuture : ¬c.platform.rest.rtc.alarm.toNat ≤
        (c.platform.rest.rtc.count c.platform.rest.guestRtcNs).toNat :=
      fun hle => hwaits ⟨hrunning, hle⟩
    rw [if_neg (by rw [hrunning]; exact Bool.noConfusion), Option.filter_eq_some_iff,
      Option.some_inj]
    constructor
    · exact fun hdue => ⟨hrunning, hdue.1⟩
    · exact fun hdue => ⟨hdue.2, decide_eq_true (by omega)⟩
  · rw [if_pos (Bool.eq_false_of_not_eq_true hrunning)]
    constructor
    · exact fun hsome => by cases hsome
    · exact fun hdue => absurd hdue.1 hrunning

omit h in
theorem mem_delays :
    some due ∈ c.delays ↔
      c.aclintDelay = some due ∨ c.supervisorDelay = some due ∨ c.alarmDelay = some due := by
  unfold delays
  simp only [List.mem_cons, List.not_mem_nil, or_false]
  exact or_congr eq_comm (or_congr eq_comm eq_comm)

theorem Presented.delay_pos (hdue : some due ∈ c.delays) : 0 < due := by
  rcases mem_delays.mp hdue with hdelay | hdelay | hdelay
  · obtain ⟨-, hwait, heq⟩ := h.aclintDelay_eq_some.mp hdelay
    omega
  · obtain ⟨-, -, hwait, heq⟩ := h.supervisorDelay_eq_some.mp hdelay
    omega
  · exact of_decide_eq_true (Option.filter_eq_some_iff.mp hdelay).2

end Waiting

/-! ## The next timer -/

/-- The clocks at `ticks`, as the runtime presents them. -/
def presentTicks (ticks : Nat) (c : Board t ε π) : Board t ε π :=
  c.presentGuestClocks (BitVec.ofNat 64 ticks) (BitVec.ofNat 64 (100 * ticks))

/-- From `ticks` to `later` neither clock wraps. -/
structure Unwrapped (ticks later : Nat) (c : Board t ε π) : Prop where
  ns : 100 * later < 2 ^ 64
  count : (c.platform.rest.rtc.count c.platform.rest.guestRtcNs).toNat +
    100 * (later - ticks) < 2 ^ 64

/-- A timer interrupt that was not raised is raised. -/
def Raises (c c' : Board t ε π) : Prop :=
  (¬c.aclintTimer ∧ c'.aclintTimer) ∨ (¬c.supervisorTimer ∧ c'.supervisorTimer) ∨
    (¬c.rtcInterrupt ∧ c'.rtcInterrupt)

/-- The alarm expires; its interrupt is raised if it is enabled. -/
structure Expires (c c' : Board t ε π) : Prop where
  running : c.platform.rest.rtc.alarmRunning = true
  stopped : c'.platform.rest.rtc.alarmRunning = false
  pending : c'.platform.rest.rtc.irqPending = true
  interrupt : c.platform.rest.rtc.irqEnabled = true → c'.rtcInterrupt

section Next

variable (h : c.Presented ticks) (hle : ticks ≤ later) (hfits : c.Unwrapped ticks later)
include h hle hfits

theorem raises_aclint :
    ¬c.aclintTimer ∧ (c.presentTicks later).aclintTimer ↔
      ∃ due, c.aclintDelay = some due ∧ ticks + due ≤ later := by
  have hlater : (c.presentTicks later).aclintTimer ↔
      (c.presentTicks later).platform.aclint.timecmp.toNat ≤ later :=
    (presented_presentGuestClocks c hfits.ns).aclint
  have hkept : (c.presentTicks later).platform.aclint = c.platform.aclint :=
    (kept_presentGuestClocks c _ _).aclint
  rw [hlater, h.aclint, hkept]
  have hsmall := hfits.ns
  constructor
  · rintro ⟨hwait, hdue⟩
    refine ⟨c.platform.aclint.timecmp.toNat - ticks, ?_, by omega⟩
    refine h.aclintDelay_eq_some.mpr ⟨?_, by omega, by omega⟩
    intro hunset
    have hmax : c.platform.aclint.timecmp.toNat = 2 ^ 64 - 1 := by
      rw [hunset]
      decide
    omega
  · rintro ⟨due, hdelay, hdue⟩
    obtain ⟨-, hwait, heq⟩ := h.aclintDelay_eq_some.mp hdelay
    omega

theorem raises_supervisor :
    ¬c.supervisorTimer ∧ (c.presentTicks later).supervisorTimer ↔
      ∃ due, c.supervisorDelay = some due ∧ ticks + due ≤ later := by
  have hlater : (c.presentTicks later).supervisorTimer ↔
      (c.presentTicks later).cpu.menvcfg &&& menvcfgStce ≠ 0 ∧
        (c.presentTicks later).cpu.stimecmp.toNat ≤ later :=
    (presented_presentGuestClocks c hfits.ns).supervisor
  have hmenvcfg : (c.presentTicks later).cpu.menvcfg = c.cpu.menvcfg :=
    (kept_presentGuestClocks c _ _).menvcfg
  have hstimecmp : (c.presentTicks later).cpu.stimecmp = c.cpu.stimecmp :=
    (kept_presentGuestClocks c _ _).stimecmp
  rw [hlater, h.supervisor, hmenvcfg, hstimecmp]
  have hsmall := hfits.ns
  constructor
  · rintro ⟨hwait, hstce, hdue⟩
    have hfuture : ¬c.cpu.stimecmp.toNat ≤ ticks := fun hpast => hwait ⟨hstce, hpast⟩
    refine ⟨c.cpu.stimecmp.toNat - ticks, ?_, by omega⟩
    refine h.supervisorDelay_eq_some.mpr ⟨hstce, ?_, by omega, by omega⟩
    intro hunset
    have hmax : c.cpu.stimecmp.toNat = 2 ^ 64 - 1 := by
      rw [hunset]
      decide
    omega
  · rintro ⟨due, hdelay, hdue⟩
    obtain ⟨hstce, -, hwait, heq⟩ := h.supervisorDelay_eq_some.mp hdelay
    exact ⟨fun hpast => absurd hpast.2 (by omega), hstce, by omega⟩

theorem alarm_due :
    c.platform.rest.rtc.Due (BitVec.ofNat 64 (100 * later)) ↔
      ∃ due, c.alarmDelay = some due ∧ ticks + due ≤ later := by
  have hcount := hfits.count
  have hwaits := h.alarm
  unfold GoldfishRtc.Due at hwaits ⊢
  rw [BitVec.le_def] at hwaits ⊢
  rw [h.ns] at hcount hwaits
  rw [GoldfishRtc.count_later hle hfits.ns hcount]
  constructor
  · rintro ⟨hrunning, hdue⟩
    refine ⟨_, h.alarmDelay_eq_some.mpr ⟨hrunning, rfl⟩, ?_⟩
    rw [h.ns]
    omega
  · rintro ⟨due, hdelay, hdue⟩
    obtain ⟨hrunning, heq⟩ := h.alarmDelay_eq_some.mp hdelay
    rw [h.ns] at heq
    exact ⟨hrunning, by omega⟩

/-- Before the first delay has passed nothing is raised. -/
theorem not_raises (hnone : ∀ due, some due ∈ c.delays → later < ticks + due) :
    ¬Raises c (c.presentTicks later) ∧
      (c.presentTicks later).platform.rest.rtc = c.platform.rest.rtc := by
  have haclint : ¬(¬c.aclintTimer ∧ (c.presentTicks later).aclintTimer) := by
    rw [raises_aclint h hle hfits]
    rintro ⟨due, hdelay, hdue⟩
    have hlater := hnone due (mem_delays.mpr (.inl hdelay))
    omega
  have hsupervisor : ¬(¬c.supervisorTimer ∧ (c.presentTicks later).supervisorTimer) := by
    rw [raises_supervisor h hle hfits]
    rintro ⟨due, hdelay, hdue⟩
    have hlater := hnone due (mem_delays.mpr (.inr (.inl hdelay)))
    omega
  have halarm : ¬c.platform.rest.rtc.Due (BitVec.ofNat 64 (100 * later)) := by
    rw [alarm_due h hle hfits]
    rintro ⟨due, hdelay, hdue⟩
    have hlater := hnone due (mem_delays.mpr (.inr (.inr hdelay)))
    omega
  have hrtc : (c.presentTicks later).platform.rest.rtc = c.platform.rest.rtc :=
    GoldfishRtc.checkAlarm_of_not_due halarm
  refine ⟨?_, hrtc⟩
  rintro (hraised | hraised | ⟨hidle, hraised⟩)
  · exact haclint hraised
  · exact hsupervisor hraised
  · unfold rtcInterrupt at hidle hraised
    rw [hrtc] at hraised
    exact hidle hraised

end Next

theorem expires (hdue : c.platform.rest.rtc.Due (BitVec.ofNat 64 (100 * later))) :
    Expires c (c.presentTicks later) := by
  have hrtc : (c.presentTicks later).platform.rest.rtc =
      { c.platform.rest.rtc with alarmRunning := false, irqPending := true } :=
    GoldfishRtc.checkAlarm_of_due hdue
  refine ⟨hdue.1, ?_, ?_, fun henabled => ?_⟩
  · rw [hrtc]
  · rw [hrtc]
  · unfold rtcInterrupt
    rw [hrtc]
    exact henabled

/-- Until the next timer is due nothing is raised, and then it is: a timer interrupt, or
the alarm, which has an interrupt if the guest enabled it. -/
theorem nextTimer_exact (c₀ : Board t ε π) (hticks : 100 * ticks < 2 ^ 64) :
    (∀ delay, (c₀.presentTicks ticks).nextTimerRemainingGuestTicks = some delay →
      0 < delay ∧
      (∀ later, ticks ≤ later → later < ticks + delay →
        (c₀.presentTicks ticks).Unwrapped ticks later →
        ¬Raises (c₀.presentTicks ticks) ((c₀.presentTicks ticks).presentTicks later) ∧
          ((c₀.presentTicks ticks).presentTicks later).platform.rest.rtc =
            (c₀.presentTicks ticks).platform.rest.rtc) ∧
      ((c₀.presentTicks ticks).Unwrapped ticks (ticks + delay) →
        Raises (c₀.presentTicks ticks) ((c₀.presentTicks ticks).presentTicks (ticks + delay)) ∨
        Expires (c₀.presentTicks ticks)
          ((c₀.presentTicks ticks).presentTicks (ticks + delay)))) ∧
    ((c₀.presentTicks ticks).nextTimerRemainingGuestTicks = none →
      ∀ later, ticks ≤ later → (c₀.presentTicks ticks).Unwrapped ticks later →
        ¬Raises (c₀.presentTicks ticks) ((c₀.presentTicks ticks).presentTicks later) ∧
          ((c₀.presentTicks ticks).presentTicks later).platform.rest.rtc =
            (c₀.presentTicks ticks).platform.rest.rtc) := by
  have h : (c₀.presentTicks ticks).Presented ticks := presented_presentGuestClocks c₀ hticks
  generalize c₀.presentTicks ticks = c at h
  constructor
  · intro delay hnext
    obtain ⟨hmem, hleast⟩ := next_eq_some hnext
    refine ⟨h.delay_pos hmem, ?_, ?_⟩
    · intro later hle hlater hfits
      have hnone : ∀ due, some due ∈ c.delays → later < ticks + due := by
        intro due hdue
        have hdelay := hleast due hdue
        omega
      exact not_raises h hle hfits hnone
    · intro hfits
      have hle : ticks ≤ ticks + delay := Nat.le_add_right _ _
      rcases mem_delays.mp hmem with hdelay | hdelay | hdelay
      · exact .inl (.inl ((raises_aclint h hle hfits).mpr ⟨delay, hdelay, Nat.le_refl _⟩))
      · exact .inl (.inr (.inl
          ((raises_supervisor h hle hfits).mpr ⟨delay, hdelay, Nat.le_refl _⟩)))
      · exact .inr (expires ((alarm_due h hle hfits).mpr ⟨delay, hdelay, Nat.le_refl _⟩))
  · intro hnext later hle hfits
    have hnone : ∀ due, some due ∈ c.delays → later < ticks + due := by
      intro due hdue
      have hfar := next_eq_none hnext hdue
      have hmax : unset.toNat = 2 ^ 64 - 1 := by decide
      have hsmall := hfits.ns
      omega
    exact not_raises h hle hfits hnone

/-- A board after its reset but for the clock. -/
def clockBoard (rtc : GoldfishRtc) : Board .native64 Unit Unit where
  cpu := .init
  ram := (bareCore .native64).ram
  guestTimerTicks := 0
  platform :=
    { aclint := .init
      plic := .init
      guestTimerTicks := 0
      rest :=
        { uart := .init
          rtc := rtc
          finisher := .running
          virtio := []
          guestRtcNs := 0
          hostServiceRequested := false
          timerReprogrammed := false } }

/-- The alarm at 1000 ns runs, and its interrupt is not enabled. -/
def silentAlarm : GoldfishRtc := { GoldfishRtc.init with alarm := 1000, alarmRunning := true }

/-- An alarm without an interrupt: the delay passes, and nothing is raised. -/
theorem nextTimer_exact_silent :
    ¬∀ (c₀ : Board .native64 Unit Unit) (ticks delay : Nat), 100 * ticks < 2 ^ 64 →
      (c₀.presentTicks ticks).nextTimerRemainingGuestTicks = some delay →
      (c₀.presentTicks ticks).Unwrapped ticks (ticks + delay) →
      Raises (c₀.presentTicks ticks) ((c₀.presentTicks ticks).presentTicks (ticks + delay)) := by
  intro h
  have hraises := h (clockBoard silentAlarm) 0 10 (by decide) (by decide)
    ⟨by decide, by decide⟩
  unfold Raises aclintTimer supervisorTimer rtcInterrupt at hraises
  revert hraises
  decide

/-- The same alarm expires after ten ticks. -/
theorem nextTimer_exact_alarm :
    Raises ((clockBoard silentAlarm).presentTicks 0)
        (((clockBoard silentAlarm).presentTicks 0).presentTicks 10) ∨
      Expires ((clockBoard silentAlarm).presentTicks 0)
        (((clockBoard silentAlarm).presentTicks 0).presentTicks 10) := by
  have hticks : 100 * 0 < 2 ^ 64 := by decide
  exact ((nextTimer_exact (clockBoard silentAlarm) hticks).1 10 (by decide)).2.2
    ⟨by decide, by decide⟩

end Board
end Cpu
end Riscbox

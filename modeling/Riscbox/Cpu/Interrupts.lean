import Riscbox.Cpu.Lines
import Riscbox.Cpu.Privileges
import Riscbox.Cpu.Timer
import Riscbox.Machine.Platform

/-!
# Interrupt delivery

What the privileged architecture asks for at an interrupt check, from the lines of the
platform and the registers as the guest wrote them, and when the hart does it.
-/

namespace Riscbox
namespace Cpu

open Platform (Plic Aclint)

/-- The parts of `PlatformBus` that its lines come from; `rest` holds the others. -/
structure PlatformBus (ρ : Type) where
  aclint : Aclint
  plic : Plic
  guestTimerTicks : BitVec 64
  rest : ρ

def PlatformBus.interruptMask {ρ : Type} (b : PlatformBus ρ) : BitVec 32 :=
  let external := b.plic.cpuInterrupts
  let direct := if b.aclint.softwareInterrupt then Platform.mipMsip else 0
  let direct :=
    if b.aclint.timerInterrupt b.guestTimerTicks then direct ||| Platform.mipMtip else direct
  direct ||| external

/-- The surroundings of the core whose platform is a bus. -/
structure PlatformEnv (t : Target) (ρ : Type) extends Env t (PlatformBus ρ) where
  interrupts_eq : platformInterrupts = PlatformBus.interruptMask

variable {t : Target} {ρ : Type}

open TinyemuCore

/-- The states of a machine, outside of `run_cpu` and inside of it.  The machine gives
the lines of its bus to the hart on both ends of `run_cpu`. -/
inductive MachineRun (env : PlatformEnv t ρ)
    (allowed : TinyemuCore t (PlatformBus ρ) → Event (PlatformBus ρ) → Prop) :
    Bool → TinyemuCore t (PlatformBus ρ) → Prop
  | init {c : TinyemuCore t (PlatformBus ρ)} :
      Initial env.toEnv c → MachineRun env allowed false c
  | host {c c' : TinyemuCore t (PlatformBus ρ)} {e : Event (PlatformBus ρ)} :
      MachineRun env allowed false c → e.isCpu = false → Step env.toEnv c e c' →
      MachineRun env allowed false c'
  | enter {c : TinyemuCore t (PlatformBus ρ)} :
      MachineRun env allowed false c →
      MachineRun env allowed true (c.setInterrupts c.platform.interruptMask).startRun
  | cpu {c c' : TinyemuCore t (PlatformBus ρ)} {e : Event (PlatformBus ρ)} :
      MachineRun env allowed true c → e.isCpu = true → allowed c e → Step env.toEnv c e c' →
      MachineRun env allowed true c'
  | leave {c : TinyemuCore t (PlatformBus ρ)} :
      MachineRun env allowed true c →
      MachineRun env allowed false (c.setInterrupts c.platform.interruptMask)

/-! ## What the architecture asks for -/

/-- The numbers of the interrupts, in the order of their priority. -/
def interruptOrder : List Nat := [11, 3, 7, 9, 1, 5]

/-- The line, or the software bit, of the interrupt `i`. -/
def linePending (c : TinyemuCore t (PlatformBus ρ)) : Nat → Bool
  | 11 => decide (c.platform.plic.Line Platform.machineContext)
  | 9 => decide (c.platform.plic.Line Platform.supervisorContext)
  | 7 => c.platform.aclint.timerInterrupt c.platform.guestTimerTicks
  | 3 => c.platform.aclint.softwareInterrupt
  | 5 =>
    if c.cpu.menvcfg &&& menvcfgStce ≠ 0 then decide (c.guestTimerTicks ≥ c.cpu.stimecmp)
    else c.cpu.mip.getLsbD 5
  | 1 => c.cpu.mip.getLsbD 1
  | _ => false

/-- Whether the destination of `i` takes interrupts: supervisor mode where `i` is
delegated, and machine mode otherwise. -/
def globallyEnabled (s : CpuState t) (i : Nat) : Bool :=
  if s.mideleg.getLsbD i then
    decide (s.priv ≠ .M) && (decide (s.priv = .U) || s.mstatus.getLsbD 1)
  else decide (s.priv ≠ .M) || s.mstatus.getLsbD 3

def qualifies (c : TinyemuCore t (PlatformBus ρ)) (i : Nat) : Bool :=
  linePending c i && c.cpu.mieWritten.getLsbD i && globallyEnabled c.cpu i

/-- The first of the interrupts that `q` holds of: those for machine mode come before
those that `d` delegates. -/
def choose (q d : Nat → Bool) : Option Nat :=
  ((interruptOrder.filter fun i => q i && !d i) ++
    interruptOrder.filter fun i => q i && d i).head?

/-- The interrupt to be taken. -/
def chosen (c : TinyemuCore t (PlatformBus ρ)) : Option Nat :=
  choose (qualifies c) fun i => c.cpu.mideleg.getLsbD i

/-- The registers after the trap for the interrupt `i`. -/
def Delivered (s : CpuState t) (i : Nat) (s' : CpuState t) : Prop :=
  if s.mideleg.getLsbD i then s'.priv = .S ∧ s'.scause = BitVec.ofNat 64 (2 ^ 63 + i)
  else s'.priv = .M ∧ s'.mcause = BitVec.ofNat 64 (2 ^ 63 + i)

/-- The hart takes the interrupt that the architecture asks for, or none. -/
def FollowsArchitecture (c : TinyemuCore t (PlatformBus ρ)) : Prop :=
  match chosen c with
  | none => c.cpu.raiseInterrupt = none
  | some i => ∃ s, c.cpu.raiseInterrupt = some s ∧ Delivered c.cpu i s

/-! ## What the hart takes -/

/-- The interrupt that `raise_interrupt` picks. -/
def taken (s : CpuState t) : Option Nat :=
  if s.getPendingIrqMask = 0 then none else some (CpuState.irqNum s.getPendingIrqMask)

theorem raiseInterrupt_eq (s : CpuState t) : s.raiseInterrupt =
    (taken s).map fun i => s.raiseException2 (BitVec.ofNat 32 i ||| causeInterrupt) 0 := by
  unfold CpuState.raiseInterrupt taken
  dsimp only
  split <;> rfl

theorem enabledInts_bit {s : CpuState t} (hpriv : s.priv ≠ .H) {i : Nat} (hi : i < 32) :
    s.enabledInts.getLsbD i = globallyEnabled s i := by
  have hnot : (~~~s.mideleg).getLsbD i = !s.mideleg.getLsbD i := by
    rw [BitVec.getLsbD_not, decide_eq_true hi, Bool.true_and]
  have hzero : (0 : BitVec 32).getLsbD i = false := BitVec.getLsbD_zero
  have hmie := and_bit_ne_zero (m := s.mstatus) (n := 3) (by decide)
  have hsie := and_bit_ne_zero (m := s.mstatus) (n := 1) (by decide)
  unfold CpuState.enabledInts globallyEnabled
  cases hp : s.priv with
  | H => exact absurd hp hpriv
  | U =>
    dsimp only
    rw [BitVec.getLsbD_allOnes, decide_eq_true hi]
    cases s.mideleg.getLsbD i <;> rfl
  | S =>
    dsimp only
    by_cases hs : s.mstatus &&& mstatusSie ≠ 0
    · rw [if_pos hs, BitVec.getLsbD_or, hnot, hsie.mp hs]
      cases s.mideleg.getLsbD i <;> rfl
    · rw [if_neg hs, hnot, Bool.eq_false_iff.mpr fun h => hs (hsie.mpr h)]
      cases s.mideleg.getLsbD i <;> rfl
  | M =>
    dsimp only
    by_cases hm : s.mstatus &&& mstatusMie ≠ 0
    · rw [if_pos hm, hnot, hmie.mp hm]
      cases s.mideleg.getLsbD i <;> rfl
    · rw [if_neg hm, hzero, Bool.eq_false_iff.mpr fun h => hm (hmie.mpr h)]
      cases s.mideleg.getLsbD i <;> rfl

/-- The mask in terms of the lines and the enables. -/
theorem getPendingIrqMask_bit {s : CpuState t} (hpriv : s.priv ≠ .H) {i : Nat} (hi : i < 32) :
    s.getPendingIrqMask.getLsbD i =
      (s.mip.getLsbD i && s.mie.getLsbD i && globallyEnabled s i) := by
  have hmask : s.getPendingIrqMask = s.mip &&& s.mie &&& s.enabledInts := by
    unfold CpuState.getPendingIrqMask
    dsimp only
    by_cases h : s.mip &&& s.mie = 0
    · rw [if_pos h, h]
      exact BitVec.zero_and.symm
    · rw [if_neg h]
  rw [hmask, BitVec.getLsbD_and, BitVec.getLsbD_and, enabledInts_bit hpriv hi]

/-! ## The choice -/

/-- The interrupts that `mie` can enable, from the lowest number on. -/
def lowestFirst : List Nat := [1, 3, 5, 7, 9]

theorem lowestFirst_eq : (List.range 32).filter (fun i => mieMask.getLsbD i) = lowestFirst := by
  decide

/-- The lowest bit of a mask under `mieMask`. -/
theorem taken_eq {s : CpuState t}
    (hmask : ∀ i, s.getPendingIrqMask.getLsbD i = true → mieMask.getLsbD i = true) :
    taken s = (lowestFirst.filter fun i => s.getPendingIrqMask.getLsbD i).head? := by
  have hfilter : lowestFirst.filter (fun i => s.getPendingIrqMask.getLsbD i) =
      (List.range 32).filter fun i => s.getPendingIrqMask.getLsbD i := by
    rw [← lowestFirst_eq, List.filter_filter]
    apply List.filter_congr
    intro i _
    cases h : s.getPendingIrqMask.getLsbD i with
    | false => rfl
    | true => rw [hmask i h]; rfl
  unfold taken CpuState.irqNum
  rw [hfilter, List.head?_filter]
  by_cases hzero : s.getPendingIrqMask = 0
  · rw [if_pos hzero, hzero]
    decide
  · rw [if_neg hzero]
    cases hfind : (List.range 32).find? fun i => s.getPendingIrqMask.getLsbD i with
    | some i => rfl
    | none =>
      apply absurd _ hzero
      apply BitVec.eq_of_getLsbD_eq
      intro i hi
      have hbit := List.find?_eq_none.mp hfind i (List.mem_range.mpr hi)
      rw [Bool.eq_false_iff.mpr hbit]
      exact BitVec.getLsbD_zero.symm

/-- A delegated `SSI` that qualifies with an interrupt that comes before it, although its
number is higher. -/
def ssiInverted (q d : Nat → Bool) : Bool :=
  q 1 && (q 3 || q 7 || if d 1 then q 9 || (q 5 && !d 5) else q 9 && !d 9)

/-- The same for `STI`, where no lower number qualifies. -/
def stiInverted (q d : Nat → Bool) : Bool :=
  !q 1 && !q 3 && q 5 && (q 7 || if d 5 then q 9 else q 9 && !d 9)

/-- The lowest number is the choice of the architecture unless the machine external
interrupt qualifies or the numbers invert the order. -/
theorem choose_eq_lowest (q d : Nat → Bool) (h₃ : d 3 = false) (h₇ : d 7 = false)
    (h₁₁ : d 11 = false) :
    choose q d = (lowestFirst.filter q).head? ↔
      q 11 = false ∧ ssiInverted q d = false ∧ stiInverted q d = false := by
  unfold choose interruptOrder lowestFirst ssiInverted stiInverted
  simp only [List.filter, h₃, h₇, h₁₁]
  generalize q 1 = q₁, q 3 = q₃, q 5 = q₅, q 7 = q₇, q 9 = q₉, q 11 = q₁₁, d 1 = d₁, d 5 = d₅,
    d 9 = d₉
  revert q₁ q₃ q₅ q₇ q₉ q₁₁ d₁ d₅ d₉
  decide

/-! ## The trap -/

theorem causeCode_interrupt {i : Nat} (hi : i < 16) :
    causeCode (BitVec.ofNat 32 i ||| causeInterrupt) = BitVec.ofNat 64 (2 ^ 63 + i) := by
  have hall : ∀ i < 16, causeCode (BitVec.ofNat 32 i ||| causeInterrupt) =
      BitVec.ofNat 64 (2 ^ 63 + i) := by decide
  exact hall i hi

theorem causeCode_injective {i j : Nat} (hi : i < 16) (hj : j < 16) :
    BitVec.ofNat 64 (2 ^ 63 + i) = BitVec.ofNat 64 (2 ^ 63 + j) ↔ i = j := by
  constructor
  · intro h
    have hnat := congrArg BitVec.toNat h
    rw [BitVec.toNat_ofNat, BitVec.toNat_ofNat] at hnat
    omega
  · intro h
    rw [h]

/-- The destination of an interrupt that is globally enabled. -/
theorem delegated_interrupt {s : CpuState t} {j : Nat} (hj : j < 16)
    (henabled : globallyEnabled s j = true) (hpriv : s.priv ≠ .H) :
    delegated s.toRiscvCpuState (BitVec.ofNat 32 j ||| causeInterrupt) =
      s.mideleg.getLsbD j := by
  have hcause : ∀ i < 16, (BitVec.ofNat 32 i ||| causeInterrupt) &&& causeInterrupt ≠ 0 ∧
      ((BitVec.ofNat 32 i ||| causeInterrupt) &&& 63).toNat = i := by decide
  have hbit : decide (s.mideleg >>> ((BitVec.ofNat 32 j ||| causeInterrupt) &&& 63) &&& 1 ≠ 0) =
      s.mideleg.getLsbD j := by
    have hone := and_twoPow_ne_zero (w := 32) (n := 0) (by decide) (s.mideleg >>> j)
    rw [BitVec.getLsbD_ushiftRight, Nat.add_zero] at hone
    rw [BitVec.ushiftRight_eq', (hcause j hj).2]
    apply Bool.eq_iff_iff.mpr
    rw [decide_eq_true_eq]
    exact hone
  unfold delegated
  rw [if_pos (hcause j hj).1, hbit]
  cases hd : s.mideleg.getLsbD j with
  | false => split <;> rfl
  | true =>
    unfold globallyEnabled at henabled
    rw [if_pos hd] at henabled
    have hlow : s.priv.code ≤ Privilege.S.code := by
      cases hp : s.priv with
      | U | S => decide
      | H => exact absurd hp hpriv
      | M =>
        rw [hp] at henabled
        cases henabled
    rw [if_pos hlow]

theorem delivered_iff {s : CpuState t} {i j : Nat} (hi : i < 16) (hj : j < 16)
    (henabled : globallyEnabled s j = true) (hpriv : s.priv ≠ .H) :
    Delivered s i (s.raiseException2 (BitVec.ofNat 32 j ||| causeInterrupt) 0) ↔ i = j := by
  have hdelegated := delegated_interrupt hj henabled hpriv
  unfold Delivered CpuState.raiseException2
  rw [CpuState.setPriv_toRiscvCpuState]
  unfold raiseException2
  rw [hdelegated]
  cases hdj : s.mideleg.getLsbD j with
  | true =>
    rw [if_pos rfl]
    cases hdi : s.mideleg.getLsbD i with
    | true =>
      rw [if_pos rfl]
      dsimp only
      rw [causeCode_interrupt hj, causeCode_injective hj hi]
      exact ⟨fun h => h.2.symm, fun h => ⟨rfl, h.symm⟩⟩
    | false =>
      rw [if_neg Bool.false_ne_true]
      refine ⟨fun h => Privilege.noConfusion h.1, fun h => ?_⟩
      rw [h, hdj] at hdi
      cases hdi
  | false =>
    rw [if_neg Bool.false_ne_true]
    cases hdi : s.mideleg.getLsbD i with
    | true =>
      rw [if_pos rfl]
      refine ⟨fun h => Privilege.noConfusion h.1, fun h => ?_⟩
      rw [h, hdj] at hdi
      cases hdi
    | false =>
      rw [if_neg Bool.false_ne_true]
      dsimp only
      rw [causeCode_interrupt hj, causeCode_injective hj hi]
      exact ⟨fun h => h.2.symm, fun h => ⟨rfl, h.symm⟩⟩

/-! ## Invariants of the registers and of the lines -/

/-- `mie` is what the guest wrote, without the bits that its mask leaves out. -/
def MieMasked (s : CpuState t) : Prop :=
  ∀ i, s.mie.getLsbD i = (s.mieWritten.getLsbD i && mieMask.getLsbD i)

theorem mieMask_delegable {i : Nat} (h : i = 1 ∨ i = 5 ∨ i = 9) : mieMask.getLsbD i = true := by
  rcases h with rfl | rfl | rfl <;> decide

theorem mieMasked_kept {π : Type} (env : Env t π)
    (allowed : TinyemuCore t π → Event π → Prop) :
    KeptByControls env allowed fun s => s.DelegatesSupervisor ∧ MieMasked s where
  init := by
    refine ⟨(delegatesSupervisor_kept env allowed).init, fun i => ?_⟩
    show (0#32).getLsbD i = ((0#32).getLsbD i && _)
    rw [BitVec.getLsbD_zero, Bool.false_and]
  same := by
    intro s s' hsame h
    refine ⟨(delegatesSupervisor_kept env allowed).same s s' hsame h.1, fun i => ?_⟩
    rw [hsame.mie, hsame.mieWritten]
    exact h.2 i
  trap := by
    intro s cause tval h
    refine ⟨(delegatesSupervisor_kept env allowed).trap s cause tval h.1, fun i => ?_⟩
    unfold CpuState.raiseException2 CpuState.setPriv
    split <;> exact h.2 i
  sret := by
    intro s h
    refine ⟨(delegatesSupervisor_kept env allowed).sret s h.1, fun i => ?_⟩
    unfold CpuState.setPriv
    split <;> exact h.2 i
  mret := by
    intro s hpriv h
    refine ⟨(delegatesSupervisor_kept env allowed).mret s hpriv h.1, fun i => ?_⟩
    unfold CpuState.setPriv
    split <;> exact h.2 i
  write := by
    intro c insn csr val reg hallowed hwrite hreg h
    refine ⟨(delegatesSupervisor_kept env allowed).write c insn csr val reg hallowed hwrite hreg
      h.1, fun i => ?_⟩
    by_cases hi : i < 32
    · apply writeCsr_keeps (P := fun k =>
        k.mie.getLsbD i = (k.mieWritten.getLsbD i && mieMask.getLsbD i))
      · cases reg with
        | mie =>
          show (CpuState.merge c.cpu.mie (val.setWidth 32) mieMask).getLsbD i =
            ((val.setWidth 32).getLsbD i && mieMask.getLsbD i)
          unfold CpuState.merge
          rw [getLsbD_merge _ _ _ hi]
          have hmie : c.cpu.mie.getLsbD i = _ := h.2 i
          rw [hmie]
          cases mieMask.getLsbD i with
          | true => rw [if_pos rfl, Bool.and_true]
          | false => rw [if_neg Bool.false_ne_true, Bool.and_false, Bool.and_false]
        | sie =>
          show (CpuState.merge c.cpu.mie (val.setWidth 32) c.cpu.mideleg).getLsbD i =
            ((CpuState.merge c.cpu.mieWritten (val.setWidth 32) c.cpu.mideleg).getLsbD i &&
              mieMask.getLsbD i)
          unfold CpuState.merge
          rw [getLsbD_merge _ _ _ hi, getLsbD_merge _ _ _ hi]
          cases hd : c.cpu.mideleg.getLsbD i with
          | true => rw [if_pos rfl, if_pos rfl, mieMask_delegable (h.1 i hd), Bool.and_true]
          | false =>
            rw [if_neg Bool.false_ne_true, if_neg Bool.false_ne_true]
            exact h.2 i
        | _ => exact h.2 i
      · exact fun _ => h.2 i
    · rw [BitVec.getLsbD_of_ge _ i (by omega), BitVec.getLsbD_of_ge _ i (by omega)]
      rfl

/-- The hart has the lines of the bus. -/
def Synced (c : TinyemuCore t (PlatformBus ρ)) : Prop := ∀ i, externalLines.getLsbD i = true →
  c.cpu.mip.getLsbD i = c.platform.interruptMask.getLsbD i

theorem setInterrupts_bit (s : CpuState t) (mask : BitVec 32) {i : Nat}
    (hi : externalLines.getLsbD i = true) :
    (s.setInterrupts mask).mip.getLsbD i = mask.getLsbD i := by
  show ((s.mip &&& ~~~externalLines) ||| (mask &&& externalLines)).getLsbD i = _
  rw [getLsbD_merge _ _ _ (BitVec.lt_of_getLsbD hi), if_pos hi]

theorem synced_setInterrupts (c : TinyemuCore t (PlatformBus ρ)) :
    Synced (c.setInterrupts c.platform.interruptMask) :=
  fun _ hi => setInterrupts_bit c.cpu c.platform.interruptMask hi

/-- The event writes to `sip` a value that moves a delegated `SEIP`. -/
def MovesSeip {π : Type} (c : TinyemuCore t π) : Event π → Prop
  | .insn insn => ∃ csr val, (c.onCpu CpuState.tick).csrWriteOf insn = some (csr, val) ∧
      Csr.ofNumber csr = some .sip ∧ c.cpu.mideleg.getLsbD 9 = true ∧
      (val.setWidth 32).getLsbD 9 ≠ c.cpu.mip.getLsbD 9
  | _ => False

theorem externalLines_bit {i : Nat} (h : externalLines.getLsbD i = true) :
    i = 3 ∨ i = 7 ∨ i = 9 ∨ i = 11 := by
  have hall : ∀ i < 32, externalLines.getLsbD i = true → i = 3 ∨ i = 7 ∨ i = 9 ∨ i = 11 := by
    decide
  exact hall i (BitVec.lt_of_getLsbD h) h

theorem mipStip_bit {i : Nat} (hi : i ≠ 5) : mipStip.getLsbD i = false := by
  have hne : decide (5 = i) = false := decide_eq_false fun h => hi h.symm
  show (BitVec.twoPow 32 5).getLsbD i = false
  rw [BitVec.getLsbD_twoPow, hne, Bool.and_false]

theorem clear_mipStip_bit (mip : BitVec 32) {i : Nat} (hi : i ≠ 5) :
    (mip &&& ~~~mipStip).getLsbD i = mip.getLsbD i := by
  by_cases hlt : i < 32
  · rw [BitVec.getLsbD_and, BitVec.getLsbD_not, mipStip_bit hi, decide_eq_true hlt]
    exact Bool.and_true _
  · rw [BitVec.getLsbD_of_ge _ i (by omega), BitVec.getLsbD_of_ge _ i (by omega)]

theorem updateTime_bit (s : CpuState t) (time : BitVec 64) {i : Nat} (hi : i ≠ 5) :
    (s.updateTime time).mip.getLsbD i = s.mip.getLsbD i := by
  unfold CpuState.updateTime
  split
  · rfl
  · split
    · dsimp only
      rw [BitVec.getLsbD_or, mipStip_bit hi, Bool.or_false]
    · exact clear_mipStip_bit s.mip hi

theorem refreshTimer_bit (s : CpuState t) (time : BitVec 64) {i : Nat} (hi : i ≠ 5) :
    (s.refreshTimer time).mip.getLsbD i = s.mip.getLsbD i := by
  unfold CpuState.refreshTimer
  split
  · exact updateTime_bit s time hi
  · exact clear_mipStip_bit s.mip hi

/-- Only a write to `sip` can reach an external line. -/
theorem writeCsr_line (s : CpuState t) (time val : BitVec 64) {reg : Csr} (hreg : reg ≠ .sip)
    {i : Nat} (hi : externalLines.getLsbD i = true) :
    (s.writeCsr time val reg).2.mip.getLsbD i = s.mip.getLsbD i := by
  have hfive : i ≠ 5 := by
    rcases externalLines_bit hi with rfl | rfl | rfl | rfl <;> decide
  cases hchecked : reg.checked with
  | false =>
    rcases s.writeCsr_checks time val hchecked with h | h
    · exact (congrArg (fun k : Checks t => k.mip.getLsbD i) h :)
    · exact (congrArg (fun k : Checks t => k.mip.getLsbD i) h :)
  | true =>
    cases reg with
    | sip => exact absurd rfl hreg
    | sie | mie | mideleg | satp => rfl
    | sstatus =>
      show (s.writeSstatus val).2.mip.getLsbD i = _
      rw [CpuState.writeSstatus_snd, CpuState.setMstatus_eq]
      split <;> rfl
    | mstatus =>
      show (s.writeMstatus val).2.mip.getLsbD i = _
      rw [CpuState.writeMstatus_snd, CpuState.setMstatus_eq]
      split <;> rfl
    | mip =>
      have hmask : s.mipMask.getLsbD i = false := by
        unfold CpuState.mipMask
        rcases externalLines_bit hi with rfl | rfl | rfl | rfl <;> split <;> decide
      show (CpuState.merge s.mip (val.setWidth 32) s.mipMask).getLsbD i = _
      unfold CpuState.merge
      rw [getLsbD_merge _ _ _ (BitVec.lt_of_getLsbD hi), hmask, if_neg Bool.false_ne_true]
    | stimecmp =>
      unfold CpuState.writeCsr
      dsimp only
      split
      · rfl
      · exact updateTime_bit { s with stimecmp := val } time hfive
    | menvcfg =>
      show (s.writeMenvcfg time val).2.mip.getLsbD i = _
      unfold CpuState.writeMenvcfg
      dsimp only
      split
      · rfl
      · have hline := refreshTimer_bit
          { s with menvcfg := CpuState.ofEnvcfg (val &&& menvcfgMask) } time hfive
        split <;> split <;> exact hline
    | _ => cases hchecked

/-- A write that leaves `SEIP`, and any write where only `SSIP`, `STIP` and `SEIP` are
delegated, leaves the external lines. -/
theorem writeSip_line {s : CpuState t} (time : BitVec 64) {val : BitVec 64}
    (hd : s.DelegatesSupervisor)
    (hseip : s.mideleg.getLsbD 9 = true → (val.setWidth 32).getLsbD 9 = s.mip.getLsbD 9)
    {i : Nat} (hi : externalLines.getLsbD i = true) :
    (s.writeCsr time val .sip).2.mip.getLsbD i = s.mip.getLsbD i := by
  show (CpuState.merge s.mip (val.setWidth 32) s.sipMask).getLsbD i = _
  unfold CpuState.merge
  rw [getLsbD_merge _ _ _ (BitVec.lt_of_getLsbD hi)]
  by_cases hmask : s.sipMask.getLsbD i = true
  · rw [if_pos hmask]
    have hdelegated := (sipMask_bit.mp hmask).1
    rcases hd i hdelegated with rfl | rfl | rfl
    · exact absurd hi (by decide)
    · exact absurd hi (by decide)
    · exact hseip hdelegated
  · rw [if_neg hmask]

variable {env : PlatformEnv t ρ} {c c' : TinyemuCore t (PlatformBus ρ)}

theorem synced_touches (h : Touches env.toEnv c c') (hc : Synced c) : Synced c' := by
  apply h.keeps (P := Synced) _ hc
  intro c c' htouch hc i hi
  rcases htouch.lines with ⟨hmip, -, hplatform⟩ | ⟨hmip, -⟩
  · rw [hmip, hplatform]
    exact hc i hi
  · rw [hmip, setInterrupts_bit _ _ hi, env.interrupts_eq]

theorem synced_control {insn : BitVec 32} {m : TinyemuCore t (PlatformBus ρ)}
    (h : Control (c.onCpu CpuState.tick) insn m) (hc : Synced c)
    (hd : c.cpu.DelegatesSupervisor) (hallowed : ¬MovesSeip c (.insn insn)) : Synced m := by
  intro i hi
  have hline : c.cpu.tick.mip.getLsbD i = c.platform.interruptMask.getLsbD i := hc i hi
  cases h with
  | @csrWrite csr val result _ hwrite hcsr hresult =>
    obtain ⟨reg, hreg, -, hquiet, hm⟩ := csrWrite_cases hcsr hresult
    have hmip : m.cpu.mip = _ := (congrArg Checks.mip hquiet.checks :)
    have hplatform : m.platform = c.platform := by
      rw [hm]
      rfl
    rw [hmip, hplatform, ← hline]
    by_cases hsip : reg = .sip
    · subst hsip
      refine writeSip_line (s := c.cpu.tick) c.guestTimerTicks hd (fun hdelegated => ?_) hi
      by_contra hmoves
      exact hallowed ⟨csr, val, hwrite, hreg, hdelegated, hmoves⟩
    · exact writeCsr_line _ _ val hsip hi
  | sret | mret =>
    show (CpuState.setPriv _ _).mip.getLsbD i = _
    unfold CpuState.setPriv
    split <;> exact hline
  | sleep | fence => exact hline

/-! ## Runs -/

/-- The events that the theorem below asks of a run. -/
def KeepsLinesAndModes {π : Type} (c : TinyemuCore t π) (e : Event π) : Prop :=
  ¬c.WritesReservedMpp e ∧ ¬MovesSeip c e

section Runs

variable {allowed : TinyemuCore t (PlatformBus ρ) → Event (PlatformBus ρ) → Prop} {running : Bool}

/-- The states of a machine are states of its core. -/
theorem MachineRun.reached (h : MachineRun env allowed running c) :
    Reached env.toEnv (fun c e => e.isCpu = true → allowed c e) c := by
  have hhost : ∀ {c : TinyemuCore t (PlatformBus ρ)} {e : Event (PlatformBus ρ)},
      e.isCpu = false → e.isCpu = true → allowed c e := by
    intro c e he he'
    rw [he] at he'
    cases he'
  have hstep : ∀ {c c' : TinyemuCore t (PlatformBus ρ)} {e : Event (PlatformBus ρ)},
      e.isCpu = false → c.next env.toEnv e = some c' → Step env.toEnv c e c' := by
    intro c c' e he hnext
    refine ⟨fun he' => ?_, hnext⟩
    rw [he] at he'
    cases he'
  induction h with
  | init hinit => exact .init hinit
  | host _ he h ih => exact ih.step (hhost he) h
  | @enter c _ ih =>
    have hset := ih.step (e := .setInterrupts c.platform.interruptMask) (hhost rfl)
      (hstep rfl rfl)
    exact hset.step (e := .startRun) (hhost rfl) (hstep rfl rfl)
  | cpu _ _ hallowed h ih => exact ih.step (fun _ => hallowed) h
  | @leave c _ ih =>
    exact ih.step (e := .setInterrupts c.platform.interruptMask) (hhost rfl) (hstep rfl rfl)

theorem TinyemuCore.Reached.mono {π : Type} {env : Env t π}
    {allowed allowed' : TinyemuCore t π → Event π → Prop} {c : TinyemuCore t π}
    (h : Reached env allowed c) (hmono : ∀ c e, allowed c e → allowed' c e) :
    Reached env allowed' c := by
  induction h with
  | init hinit => exact .init hinit
  | step _ hallowed hstep ih => exact ih.step (hmono _ _ hallowed) hstep

/-- Inside of `run_cpu` the hart has the lines of the bus. -/
theorem MachineRun.synced (h : MachineRun env KeepsLinesAndModes running c) :
    running = true → Synced c := by
  induction h with
  | init | host | leave => exact fun hrun => Bool.noConfusion hrun
  | @enter c _ _ => exact fun _ => synced_setInterrupts c
  | @cpu c c' e hprev he hallowed hstep ih =>
    intro _
    have hc := ih rfl
    cases hstep.turn with
    | touches _ htouches => exact synced_touches htouches hc
    | trap cause tval _ htouches =>
      intro i hi
      show (CpuState.setPriv _ _).mip.getLsbD i = _
      have hm := synced_touches htouches hc i hi
      unfold CpuState.setPriv
      split <;> exact hm
    | control he' hcontrol hquiet =>
      subst he'
      have hd := (mieMasked_kept env.toEnv _).reached hprev.reached
      have hm := synced_control hcontrol hc hd.1 hallowed.2
      intro i hi
      have hmip := congrArg Checks.mip hquiet.checks
      rw [← hm i hi]
      exact congrArg (fun mip => BitVec.getLsbD mip i) hmip
    | host he' _ =>
      rw [he] at he'
      cases he'

end Runs

/-- The lines of the bus, one by one. -/
theorem interruptMask_bit (b : PlatformBus ρ) :
    b.interruptMask.getLsbD 3 = b.aclint.softwareInterrupt ∧
      b.interruptMask.getLsbD 7 = b.aclint.timerInterrupt b.guestTimerTicks ∧
      b.interruptMask.getLsbD 9 = decide (b.plic.Line 1) := by
  have hline : decide (b.plic.Line 1) = decide (b.plic.bestIrq 1 true ≠ 0) :=
    decide_eq_decide.mpr (b.plic.bestIrq_ne_zero 1).symm
  have hexternal : b.plic.cpuInterrupts.getLsbD 3 = false ∧
      b.plic.cpuInterrupts.getLsbD 7 = false ∧
      b.plic.cpuInterrupts.getLsbD 9 = decide (b.plic.bestIrq 1 true ≠ 0) := by
    unfold Plic.cpuInterrupts
    dsimp only
    by_cases h₁ : b.plic.bestIrq 1 true ≠ 0
    · rw [if_pos h₁, decide_eq_true h₁]
      split <;> decide
    · rw [if_neg h₁, decide_eq_false h₁]
      split <;> decide
  rw [hline]
  unfold PlatformBus.interruptMask
  dsimp only
  rw [BitVec.getLsbD_or, BitVec.getLsbD_or, BitVec.getLsbD_or, hexternal.1, hexternal.2.1,
    hexternal.2.2]
  cases b.aclint.softwareInterrupt <;> cases b.aclint.timerInterrupt b.guestTimerTicks <;>
    cases decide (b.plic.bestIrq 1 true ≠ 0) <;> decide

/-- What the hart sees pending is what the architecture calls pending. -/
theorem linePending_mip (hsynced : Synced c) (htimer : c.cpu.TimerLine c.guestTimerTicks) {i : Nat}
    (hi : mieMask.getLsbD i = true) : linePending c i = c.cpu.mip.getLsbD i := by
  have hall : ∀ i < 32, mieMask.getLsbD i = true → i = 1 ∨ i = 3 ∨ i = 5 ∨ i = 7 ∨ i = 9 := by
    decide
  obtain ⟨h₃, h₇, h₉⟩ := interruptMask_bit c.platform
  rcases hall i (BitVec.lt_of_getLsbD hi) hi with rfl | rfl | rfl | rfl | rfl
  · rfl
  · rw [hsynced 3 (by decide), h₃]
    rfl
  · show (if _ then _ else _) = _
    by_cases hstce : c.cpu.menvcfg &&& menvcfgStce ≠ 0
    · rw [if_pos hstce]
      apply Bool.eq_iff_iff.mpr
      rw [decide_eq_true_eq, ← htimer hstce, and_mipStip]
    · rw [if_neg hstce]
  · rw [hsynced 7 (by decide), h₇]
    rfl
  · rw [hsynced 9 (by decide), h₉]
    rfl

/-- The mask of an interrupt check in terms of the architecture. -/
theorem getPendingIrqMask_qualifies (hsynced : Synced c)
    (htimer : c.cpu.TimerLine c.guestTimerTicks) (hmie : MieMasked c.cpu)
    (hpriv : c.cpu.priv ≠ .H) {i : Nat} (hi : i < 32) :
    c.cpu.getPendingIrqMask.getLsbD i = (mieMask.getLsbD i && qualifies c i) := by
  rw [getPendingIrqMask_bit hpriv hi, hmie i]
  unfold qualifies
  cases hmask : mieMask.getLsbD i with
  | true => rw [linePending_mip hsynced htimer hmask, Bool.and_true, Bool.true_and]
  | false => rw [Bool.and_false, Bool.and_false, Bool.false_and, Bool.false_and]

/-- The interrupt that the hart takes is the lowest one that qualifies. -/
theorem taken_qualifies (hmask : ∀ i < 32, c.cpu.getPendingIrqMask.getLsbD i =
    (mieMask.getLsbD i && qualifies c i)) :
    taken c.cpu = (lowestFirst.filter (qualifies c)).head? := by
  have hsub : ∀ i, c.cpu.getPendingIrqMask.getLsbD i = true → mieMask.getLsbD i = true := by
    intro i h
    rw [hmask i (BitVec.lt_of_getLsbD h), Bool.and_eq_true] at h
    exact h.1
  have hlow : ∀ i ∈ lowestFirst, i < 32 ∧ mieMask.getLsbD i = true := by decide
  have hfilter : lowestFirst.filter (fun i => c.cpu.getPendingIrqMask.getLsbD i) =
      lowestFirst.filter (qualifies c) := by
    apply List.filter_congr
    intro i hi
    rw [hmask i (hlow i hi).1, (hlow i hi).2, Bool.true_and]
  rw [taken_eq hsub, hfilter]

theorem chosen_lt {q d : Nat → Bool} {i : Nat} (h : choose q d = some i) : i < 16 := by
  have hmem := List.mem_of_head? h
  have hall : ∀ i ∈ interruptOrder, i < 16 := by decide
  rcases List.mem_append.mp hmem with hi | hi
  · exact hall i (List.mem_filter.mp hi).1
  · exact hall i (List.mem_filter.mp hi).1

theorem followsArchitecture_iff (hpriv : c.cpu.priv ≠ .H)
    (htaken : taken c.cpu = (lowestFirst.filter (qualifies c)).head?) :
    FollowsArchitecture c ↔ chosen c = taken c.cpu := by
  have hdelivered : ∀ i j, chosen c = some i → taken c.cpu = some j →
      (Delivered c.cpu i (c.cpu.raiseException2 (BitVec.ofNat 32 j ||| causeInterrupt) 0) ↔
        i = j) := by
    intro i j hi hj
    rw [htaken] at hj
    have hmem := List.mem_filter.mp (List.mem_of_head? hj)
    have hlow : ∀ j ∈ lowestFirst, j < 16 := by decide
    have henabled : globallyEnabled c.cpu j = true := by
      have hq := hmem.2
      unfold qualifies at hq
      rw [Bool.and_eq_true] at hq
      exact hq.2
    exact delivered_iff (chosen_lt hi) (hlow j hmem.1) henabled hpriv
  unfold FollowsArchitecture
  rw [raiseInterrupt_eq]
  cases hchosen : chosen c with
  | none =>
    dsimp only
    rw [Option.map_eq_none_iff]
    exact eq_comm
  | some i =>
    dsimp only
    cases hj : taken c.cpu with
    | none =>
      constructor
      · rintro ⟨s, hs, -⟩
        cases hs
      · intro h
        cases h
    | some j =>
      rw [Option.map_some, Option.some.injEq]
      have hij := hdelivered i j hchosen hj
      constructor
      · rintro ⟨s, hs, hdel⟩
        cases hs
        exact hij.mp hdel
      · intro h
        exact ⟨_, rfl, hij.mpr h⟩

/-- In every run that neither writes a reserved mode to `mstatus.MPP` nor moves `SEIP`
through `sip`, the hart takes the interrupt that the architecture asks for exactly when
no machine external interrupt qualifies and the numbers do not invert the order. -/
theorem interrupts_followArchitecture (h : MachineRun env KeepsLinesAndModes true c) :
    FollowsArchitecture c ↔ qualifies c 11 = false ∧
      ssiInverted (qualifies c) (fun i => c.cpu.mideleg.getLsbD i) = false ∧
      stiInverted (qualifies c) (fun i => c.cpu.mideleg.getLsbD i) = false := by
  have hreached := h.reached
  have hmode : c.cpu.LegalMode := by
    apply (legalMode_kept env.toEnv).reached
    apply hreached.mono
    intro c e hallowed hwrites
    cases e with
    | insn insn => exact (hallowed rfl).1 hwrites
    | _ => exact hwrites.elim
  have hpriv := (CpuState.legalMode_iff.mp hmode).1
  obtain ⟨hdelegates, hmie⟩ := (mieMasked_kept env.toEnv _).reached hreached
  have htimer := (consistent_reached (hreached.mono fun _ _ _ => trivial)).1.timer
  have htaken := taken_qualifies fun i hi =>
    getPendingIrqMask_qualifies (h.synced rfl) htimer hmie hpriv hi
  have hundelegated : ∀ i, i ≠ 1 → i ≠ 5 → i ≠ 9 → c.cpu.mideleg.getLsbD i = false := by
    intro i h₁ h₅ h₉
    rw [Bool.eq_false_iff]
    intro hbit
    rcases hdelegates i hbit with rfl | rfl | rfl <;> contradiction
  rw [followsArchitecture_iff hpriv htaken, htaken]
  exact choose_eq_lowest _ _ (hundelegated 3 (by decide) (by decide) (by decide))
    (hundelegated 7 (by decide) (by decide) (by decide))
    (hundelegated 11 (by decide) (by decide) (by decide))

/-- A core on a bus without devices. -/
def busEnv (t : Target) : PlatformEnv t Unit where
  map := (bareEnv t).map
  platformRead := fun b _ _ _ => (false, 0, b)
  platformWrite := fun b _ _ _ _ => ⟨false, b, []⟩
  platformInterrupts := PlatformBus.interruptMask
  platformServiceRequested := fun _ => false
  fpu := fun _ _ _ _ _ => none
  interrupts_eq := rfl

def busCore (t : Target) (b : PlatformBus Unit) : TinyemuCore t (PlatformBus Unit) where
  cpu := .init
  ram := (bareCore t).ram
  guestTimerTicks := 0
  platform := b

theorem initial_busCore (t : Target) (b : PlatformBus Unit) :
    Initial (busEnv t).toEnv (busCore t b) where
  cpu := rfl
  ticks := rfl
  dirty := (initial_bareCore t).dirty
  changed := rfl
  stored := rfl

/-- The core in `run_cpu` after the instructions `insns`. -/
def busRun (t : Target) (b : PlatformBus Unit) (insns : List (BitVec 32)) :
    TinyemuCore t (PlatformBus Unit) :=
  ((busCore t b).setInterrupts b.interruptMask).startRun.runInsns (busEnv t).toEnv insns

/-- The software interrupt is raised. -/
def softwareBus : PlatformBus Unit := ⟨⟨true, BitVec.allOnes 64⟩, .init, 0, ()⟩

/-- `csrsi mie, 8` and `csrsi mstatus, 8`. -/
theorem interrupts_followArchitecture_msi :
    chosen (busRun .native64 softwareBus [0x30446073, 0x30046073]) = some 3 ∧
      FollowsArchitecture (busRun .native64 softwareBus [0x30446073, 0x30046073]) := by
  have hmie : KeepsLinesAndModes (busRun .native64 softwareBus []) (.insn 0x30446073) := by
    constructor
    · rintro ⟨csr, val, hwrite, hreg, -⟩
      cases hwrite
      cases hreg
    · rintro ⟨csr, val, hwrite, hreg, -⟩
      cases hwrite
      cases hreg
  have hmstatus : KeepsLinesAndModes (busRun .native64 softwareBus [0x30446073])
      (.insn 0x30046073) := by
    constructor
    · rintro ⟨csr, val, hwrite, -, hmpp⟩
      cases hwrite
      revert hmpp
      decide
    · rintro ⟨csr, val, hwrite, hreg, -⟩
      cases hwrite
      cases hreg
  have hrun : MachineRun (busEnv .native64) KeepsLinesAndModes true
      (busRun .native64 softwareBus [0x30446073, 0x30046073]) := by
    have h₀ : MachineRun (busEnv .native64) KeepsLinesAndModes true _ :=
      (MachineRun.init (initial_busCore .native64 softwareBus)).enter
    have h₁ := h₀.cpu rfl hmie ⟨fun _ => rfl, rfl⟩
    exact h₁.cpu rfl hmstatus ⟨fun _ => rfl, rfl⟩
  exact ⟨by decide, (interrupts_followArchitecture hrun).mpr (by decide)⟩

/-- The source 10 is enabled for machine mode, and its line is high. -/
def externalBus : PlatformBus Unit :=
  ⟨.init, ((Plic.init.write 0x28 1).write 0x2000 0x400).setIrq 10 true, 0, ()⟩

/-- `addi x1, x0, -2048`, `csrw mie, x1` and `csrsi mstatus, 8`: the machine external
interrupt is never taken. -/
theorem interrupts_followArchitecture_mei :
    ¬∀ c, MachineRun (busEnv .native64) (fun _ _ => True) true c → FollowsArchitecture c := by
  intro h
  have hrun : MachineRun (busEnv .native64) (fun _ _ => True) true
      (busRun .native64 externalBus [0x80000093, 0x30409073, 0x30046073]) := by
    have h₀ : MachineRun (busEnv .native64) (fun _ _ => True) true _ :=
      (MachineRun.init (initial_busCore .native64 externalBus)).enter
    have h₁ := h₀.cpu (e := .insn 0x80000093) rfl trivial ⟨fun _ => rfl, rfl⟩
    have h₂ := h₁.cpu (e := .insn 0x30409073) rfl trivial ⟨fun _ => rfl, rfl⟩
    exact h₂.cpu (e := .insn 0x30046073) rfl trivial ⟨fun _ => rfl, rfl⟩
  have hfollows := h _ hrun
  have hchosen : chosen (busRun .native64 externalBus [0x80000093, 0x30409073, 0x30046073]) =
      some 11 := by decide
  have htaken : (busRun .native64 externalBus
      [0x80000093, 0x30409073, 0x30046073]).cpu.getPendingIrqMask = 0 := by decide
  unfold FollowsArchitecture CpuState.raiseInterrupt at hfollows
  rw [hchosen, htaken] at hfollows
  obtain ⟨s, hs, -⟩ := hfollows
  cases hs

end Cpu
end Riscbox

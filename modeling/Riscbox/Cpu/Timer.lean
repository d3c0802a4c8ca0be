import Riscbox.Cpu.Status
import Riscbox.Cpu.Writes

/-!
# The supervisor timer line and the sleep flag

Under `menvcfg.STCE` the line follows the comparison of the clock with `stimecmp`, and a
hart that sleeps has no enabled interrupt pending.
-/

namespace Riscbox
namespace Cpu

variable {t : Target} {π : Type}

theorem and_mipStip (mip : BitVec 32) : mip &&& mipStip ≠ 0 ↔ mip.getLsbD 5 = true :=
  and_twoPow_ne_zero (by decide) mip

namespace CpuState

/-- Under `STCE` the timer line is the comparison at the clock `time`. -/
def TimerLine (s : CpuState t) (time : BitVec 64) : Prop :=
  s.menvcfg &&& menvcfgStce ≠ 0 → (s.mip &&& mipStip ≠ 0 ↔ time ≥ s.stimecmp)

variable {s s' : CpuState t} {time : BitVec 64}

theorem TimerLine.of_eq (h : s.TimerLine time) (hmenvcfg : s'.menvcfg = s.menvcfg)
    (hstimecmp : s'.stimecmp = s.stimecmp) (hmip : s'.mip.getLsbD 5 = s.mip.getLsbD 5) :
    s'.TimerLine time := by
  unfold TimerLine at h ⊢
  rw [and_mipStip] at h ⊢
  rw [hmenvcfg, hstimecmp, hmip]
  exact h

theorem timerLine_init (time : BitVec 64) : (CpuState.init : CpuState t).TimerLine time :=
  fun hstce => absurd (BitVec.zero_and : 0#64 &&& menvcfgStce = 0#64) hstce

/-- The comparison sets the line, whatever it was. -/
theorem updateTime_timerLine (s : CpuState t) (time : BitVec 64) :
    (s.updateTime time).TimerLine time := by
  unfold TimerLine
  rw [and_mipStip]
  unfold updateTime
  by_cases hstce : s.menvcfg &&& menvcfgStce = 0
  · rw [if_pos hstce]
    exact fun h => absurd hstce h
  rw [if_neg hstce]
  intro _
  by_cases htime : time ≥ s.stimecmp
  · rw [if_pos htime]
    simp [mipStip, htime]
  · rw [if_neg htime]
    simp [mipStip, htime]

theorem refreshTimer_timerLine (s : CpuState t) (time : BitVec 64) :
    (s.refreshTimer time).TimerLine time := by
  unfold refreshTimer
  by_cases hstce : s.menvcfg &&& menvcfgStce = 0
  · rw [if_neg (fun h => h hstce)]
    exact fun h => absurd hstce h
  · rw [if_pos hstce]
    exact updateTime_timerLine s time

theorem setInterrupts_timerLine (h : s.TimerLine time) (mask : BitVec 32) :
    (s.setInterrupts mask).TimerLine time := by
  have hbit : (s.setInterrupts mask).mip.getLsbD 5 = s.mip.getLsbD 5 := by
    simp [setInterrupts, setMip, resetMip, externalLines, mipMsip, mipMtip, mipMeip, mipSeip]
  exact h.of_eq rfl rfl hbit

theorem setPriv_timerLine (h : s.TimerLine time) (r : RiscvCpuState) :
    (s.setPriv r).TimerLine time := by
  unfold setPriv
  split <;> exact h

theorem setMstatus_timerLine (h : s.TimerLine time) (val : BitVec 64) :
    (s.setMstatus val).TimerLine time := by
  rw [setMstatus_eq]
  split <;> exact h

/-- Under `STCE` no write to `sip` or `mip` reaches the timer line. -/
theorem merge_timerLine (h : s.TimerLine time) {val mask : BitVec 32}
    (hmask : s.menvcfg &&& menvcfgStce ≠ 0 → mask.getLsbD 5 = false) :
    CpuState.TimerLine { s with mip := merge s.mip val mask } time := by
  intro hstce
  have hbit : (merge s.mip val mask).getLsbD 5 = s.mip.getLsbD 5 := by
    unfold merge
    rw [getLsbD_merge _ _ _ (by decide), hmask hstce]
    rfl
  have hline : CpuState.TimerLine { s with mip := merge s.mip val mask } time :=
    h.of_eq rfl rfl hbit
  exact hline hstce

theorem writeMenvcfg_timerLine (h : s.TimerLine time) (val : BitVec 64) :
    (s.writeMenvcfg time val).2.TimerLine time := by
  unfold writeMenvcfg
  dsimp only
  split
  · exact h
  · have hline := refreshTimer_timerLine { s with menvcfg := ofEnvcfg (val &&& menvcfgMask) } time
    split <;> split <;> exact hline

theorem writeCsr_timerLine (h : s.TimerLine time) (val : BitVec 64) (reg : Csr) :
    (s.writeCsr time val reg).2.TimerLine time := by
  cases hchecked : reg.checked with
  | false =>
    rcases s.writeCsr_checks time val hchecked with hsame | hsame
    · exact h.of_eq (congrArg Checks.menvcfg hsame :) (congrArg Checks.stimecmp hsame :)
        (congrArg (fun k : Checks t => k.mip.getLsbD 5) hsame :)
    · exact h.of_eq (congrArg Checks.menvcfg hsame :) (congrArg Checks.stimecmp hsame :)
        (congrArg (fun k : Checks t => k.mip.getLsbD 5) hsame :)
  | true =>
    cases reg with
    | sstatus =>
      show (s.writeSstatus val).2.TimerLine time
      rw [writeSstatus_snd]
      exact setMstatus_timerLine h _
    | mstatus =>
      show (s.writeMstatus val).2.TimerLine time
      rw [writeMstatus_snd]
      exact setMstatus_timerLine h val
    | sie | mie | mideleg | satp => exact h
    | sip =>
      apply merge_timerLine h
      intro hstce
      unfold sipMask
      rw [if_pos hstce]
      simp [mipStip]
    | mip =>
      apply merge_timerLine h
      intro hstce
      unfold mipMask
      rw [if_pos hstce]
      simp [mipStip]
    | stimecmp =>
      unfold writeCsr
      dsimp only
      split
      · exact h
      · exact updateTime_timerLine { s with stimecmp := val } time
    | menvcfg => exact writeMenvcfg_timerLine h val
    | _ => cases hchecked

/-! ## The sleep flag -/

/-- A hart that sleeps has no enabled interrupt pending. -/
def Rested (s : CpuState t) : Prop := s.powerDownFlag = true → s.mip &&& s.mie = 0

theorem rested_of_awake (h : s.powerDownFlag = false) : s.Rested := by
  intro hsleep
  rw [h] at hsleep
  cases hsleep

/-- A line that rises ends the sleep. -/
theorem rested_wake (s : CpuState t) (mip : BitVec 32) :
    CpuState.Rested
      { s with
        mip := mip
        powerDownFlag :=
          if s.powerDownFlag ∧ mip &&& s.mie ≠ 0 then false else s.powerDownFlag } := by
  intro hsleep
  dsimp only at hsleep ⊢
  by_contra hpending
  split at hsleep
  · cases hsleep
  next h => exact h ⟨hsleep, hpending⟩

theorem updateTime_rested (h : s.Rested) (time : BitVec 64) : (s.updateTime time).Rested := by
  unfold updateTime
  split
  · exact h
  · split
    · exact rested_wake s (s.mip ||| mipStip)
    · intro hsleep
      have hpending : s.mip &&& s.mie = 0 := h hsleep
      show s.mip &&& ~~~mipStip &&& s.mie = 0
      rw [BitVec.and_assoc, BitVec.and_comm (~~~mipStip), ← BitVec.and_assoc, hpending]
      exact BitVec.zero_and

theorem setInterrupts_rested (s : CpuState t) (mask : BitVec 32) :
    (s.setInterrupts mask).Rested := rested_wake (s.resetMip externalLines) _

theorem setInterrupts_awake (h : s.powerDownFlag = false) (mask : BitVec 32) :
    (s.setInterrupts mask).powerDownFlag = false := by
  unfold setInterrupts setMip resetMip
  dsimp only
  split
  · rfl
  · exact h

theorem updateTime_awake (h : s.powerDownFlag = false) (time : BitVec 64) :
    (s.updateTime time).powerDownFlag = false := by
  unfold updateTime
  split
  · exact h
  · split
    · dsimp only
      split
      · rfl
      · exact h
    · exact h

theorem setPriv_awake (h : s.powerDownFlag = false) (r : RiscvCpuState) :
    (s.setPriv r).powerDownFlag = false := by
  unfold setPriv
  split <;> exact h

theorem setMstatus_awake (h : s.powerDownFlag = false) (val : BitVec 64) :
    (s.setMstatus val).powerDownFlag = false := by
  rw [setMstatus_eq]
  split <;> exact h

theorem refreshTimer_awake (h : s.powerDownFlag = false) (time : BitVec 64) :
    (s.refreshTimer time).powerDownFlag = false := by
  unfold refreshTimer
  split
  · exact updateTime_awake h time
  · exact h

theorem writeCsr_awake (h : s.powerDownFlag = false) (time val : BitVec 64) (reg : Csr) :
    (s.writeCsr time val reg).2.powerDownFlag = false := by
  cases hchecked : reg.checked with
  | false =>
    rcases s.writeCsr_checks time val hchecked with hsame | hsame
    · exact (congrArg Checks.powerDownFlag hsame).trans h
    · exact (congrArg Checks.powerDownFlag hsame).trans h
  | true =>
    cases reg with
    | sstatus =>
      show (s.writeSstatus val).2.powerDownFlag = false
      rw [writeSstatus_snd]
      exact setMstatus_awake h _
    | mstatus =>
      show (s.writeMstatus val).2.powerDownFlag = false
      rw [writeMstatus_snd]
      exact setMstatus_awake h val
    | sie | mie | mideleg | satp | sip | mip => exact h
    | stimecmp =>
      unfold writeCsr
      dsimp only
      split
      · exact h
      · exact updateTime_awake (s := { s with stimecmp := val }) h time
    | menvcfg =>
      show (s.writeMenvcfg time val).2.powerDownFlag = false
      unfold writeMenvcfg
      dsimp only
      split
      · exact h
      · have hawake := refreshTimer_awake
          (s := { s with menvcfg := ofEnvcfg (val &&& menvcfgMask) }) h time
        split <;> split <;> exact hawake
    | _ => cases hchecked

end CpuState

/-! ## Runs -/

open TinyemuCore

/-- The timer line and the sleep flag agree with what they stand for. -/
structure TinyemuCore.Consistent (c : TinyemuCore t π) : Prop where
  timer : c.cpu.TimerLine c.guestTimerTicks
  sleep : c.cpu.Rested

variable {env : Env t π} {c c' : TinyemuCore t π}

theorem consistent_touch (h : Touch env c c')
    (hc : c.cpu.TimerLine c.guestTimerTicks ∧ c.cpu.powerDownFlag = false) :
    c'.cpu.TimerLine c'.guestTimerTicks ∧ c'.cpu.powerDownFlag = false := by
  obtain ⟨htimer, hawake⟩ := hc
  obtain ⟨hsame, hticks⟩ := h.sameControls
  rw [hticks]
  rcases h.lines with ⟨hmip, hpower, -⟩ | ⟨hmip, hpower⟩
  · refine ⟨htimer.of_eq hsame.menvcfg hsame.stimecmp ?_, hpower.trans hawake⟩
    rw [hmip]
  · refine ⟨?_, hpower.trans (CpuState.setInterrupts_awake hawake _)⟩
    have hline := CpuState.setInterrupts_timerLine htimer (env.platformInterrupts c'.platform)
    apply hline.of_eq hsame.menvcfg hsame.stimecmp
    rw [hmip]

theorem consistent_touches (h : Touches env c c')
    (hc : c.cpu.TimerLine c.guestTimerTicks ∧ c.cpu.powerDownFlag = false) :
    c'.cpu.TimerLine c'.guestTimerTicks ∧ c'.cpu.powerDownFlag = false :=
  h.keeps (P := fun c => c.cpu.TimerLine c.guestTimerTicks ∧ c.cpu.powerDownFlag = false)
    (fun _ _ => consistent_touch) hc

theorem TinyemuCore.Consistent.of_quiet {m : TinyemuCore t π} {s : CpuState t} (h : m.Consistent)
    (hquiet : Quiet m.cpu s) : TinyemuCore.Consistent { m with cpu := s } := by
  have hmip : s.mip = m.cpu.mip := (congrArg Checks.mip hquiet.checks :)
  have hpower : s.powerDownFlag = m.cpu.powerDownFlag :=
    (congrArg Checks.powerDownFlag hquiet.checks :)
  constructor
  · apply h.timer.of_eq hquiet.sameControls.menvcfg hquiet.sameControls.stimecmp
    rw [hmip]
  · intro hsleep
    show s.mip &&& s.mie = 0
    rw [hmip, hquiet.sameControls.mie]
    exact h.sleep (hpower.symm.trans hsleep)

theorem consistent_control {insn : BitVec 32} {m : TinyemuCore t π} (h : Control c insn m)
    (htimer : c.cpu.TimerLine c.guestTimerTicks) (hawake : c.cpu.powerDownFlag = false) :
    m.Consistent := by
  cases h with
  | csrWrite hwrite hcsr hresult =>
    obtain ⟨reg, -, -, hquiet, hm⟩ := csrWrite_cases hcsr hresult
    rw [hm]
    exact Consistent.of_quiet (m := { c with
        cpu := _
        ram := if _ ∧ _ then c.ram.fence else c.ram })
      ⟨CpuState.writeCsr_timerLine htimer _ reg,
        CpuState.rested_of_awake (CpuState.writeCsr_awake hawake _ _ reg)⟩ hquiet
  | sret | mret =>
    exact ⟨CpuState.setPriv_timerLine htimer _,
      CpuState.rested_of_awake (CpuState.setPriv_awake hawake _)⟩
  | sleep hidle => exact ⟨htimer, fun _ => hidle⟩
  | fence => exact ⟨htimer, CpuState.rested_of_awake hawake⟩

theorem consistent_host {e : Event π} (he : e.isCpu = false) (h : c.next env e = some c')
    (hc : c.Consistent) : c'.Consistent := by
  cases e with
  | enterInterp | interrupt | fetch | insn => cases he
  | setGuestTimerTicks ticks =>
    cases h
    exact ⟨CpuState.updateTime_timerLine c.cpu ticks, CpuState.updateTime_rested hc.sleep ticks⟩
  | setInterrupts mask =>
    cases h
    exact ⟨CpuState.setInterrupts_timerLine hc.timer mask,
      CpuState.setInterrupts_rested c.cpu mask⟩
  | resetCpu =>
    cases h
    exact ⟨CpuState.timerLine_init _, CpuState.rested_of_awake rfl⟩
  | takeDirty region count =>
    cases h
    obtain ⟨tlb, ram, htake⟩ := takeDirty_eq env c region count
    rw [htake]
    exact ⟨hc.timer, hc.sleep⟩
  | clearDirty region offset =>
    cases h
    obtain ⟨tlb, ram, hclear⟩ := clearDirty_eq env c region offset
    rw [hclear]
    exact ⟨hc.timer, hc.sleep⟩
  | ramRange address len =>
    rw [TinyemuCore.next, Option.map_eq_some_iff] at h
    obtain ⟨⟨ptr, c₁⟩, hrange, h⟩ := h
    cases h
    rw [TinyemuCore.onlyRam_ramRangeForWrite hrange]
    exact ⟨hc.timer, hc.sleep⟩
  | writeRam address bytes =>
    cases h
    rw [TinyemuCore.onlyRam_writeRam env c address bytes]
    exact ⟨hc.timer, hc.sleep⟩
  | startRun | platform =>
    cases h
    exact ⟨hc.timer, hc.sleep⟩

theorem consistent_step {e : Event π} (h : Step env c e c') (hc : c.Consistent) :
    c'.Consistent := by
  have hawake : e.isCpu = true → c.cpu.powerDownFlag = false := h.1
  cases h.turn with
  | touches he htouches =>
    obtain ⟨htimer, hawake⟩ := consistent_touches htouches ⟨hc.timer, hawake he⟩
    exact ⟨htimer, CpuState.rested_of_awake hawake⟩
  | @trap m cause tval htraps htouches =>
    have he : e.isCpu = true := by
      cases e with
      | insn | fetch | interrupt => rfl
      | _ => exact htraps.elim
    obtain ⟨htimer, hawake⟩ := consistent_touches htouches ⟨hc.timer, hawake he⟩
    exact ⟨CpuState.setPriv_timerLine htimer _,
      CpuState.rested_of_awake (CpuState.setPriv_awake hawake _)⟩
  | control he hcontrol hquiet =>
    subst he
    exact (consistent_control hcontrol hc.timer (hawake rfl)).of_quiet hquiet
  | host he hnext => exact consistent_host he hnext hc

/-- In every run the timer line is the comparison with `stimecmp` under `STCE`, and a
hart that sleeps, or that the host is told sleeps, has no enabled interrupt pending. -/
theorem consistent_reached (h : Reached env (fun _ _ => True) c) :
    c.Consistent ∧ (c.runReason = .wfiSleep → c.cpu.mip &&& c.cpu.mie = 0) := by
  have hc : c.Consistent := by
    induction h with
    | init hinit =>
      constructor
      · rw [hinit.cpu]
        exact CpuState.timerLine_init _
      · apply CpuState.rested_of_awake
        rw [hinit.cpu]
        rfl
    | step _ _ hstep ih => exact consistent_step hstep ih
  refine ⟨hc, ?_⟩
  intro hreason
  apply hc.sleep
  unfold runReason at hreason
  cases hpower : c.cpu.powerDownFlag with
  | true => rfl
  | false =>
    rw [hpower] at hreason
    split at hreason
    · cases hreason
    · split at hreason
      · cases hreason
      · cases hreason

/-- `wfi` after reset sleeps. -/
theorem consistent_reached_wfi :
    ((bareCore .wasm32).runInsns (bareEnv .wasm32) [0x10500073]).runReason = .wfiSleep ∧
      ((bareCore .wasm32).runInsns (bareEnv .wasm32) [0x10500073]).cpu.mip &&&
        ((bareCore .wasm32).runInsns (bareEnv .wasm32) [0x10500073]).cpu.mie = 0 := by
  have hstep : Step (bareEnv .wasm32) (bareCore .wasm32) (.insn 0x10500073)
      ((bareCore .wasm32).runInsns (bareEnv .wasm32) [0x10500073]) := ⟨fun _ => rfl, rfl⟩
  have hreached : Reached (bareEnv .wasm32) (fun _ _ => True) _ :=
    (Reached.init (initial_bareCore .wasm32)).step trivial hstep
  have hsleep : ((bareCore .wasm32).runInsns (bareEnv .wasm32) [0x10500073]).runReason =
      .wfiSleep := by decide
  exact ⟨hsleep, (consistent_reached hreached).2 hsleep⟩

end Cpu
end Riscbox

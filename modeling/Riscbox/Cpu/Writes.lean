import Riscbox.Cpu.Runs

/-!
# What a write to a register reaches
-/

namespace Riscbox
namespace Cpu

variable {t : Target} {π : Type}

/-- What translations, interrupts and privilege checks read. -/
structure Checks (t : Target) where
  priv : Privilege
  mstatus : BitVec 64
  mideleg : BitVec 32
  mie : BitVec 32
  mieWritten : BitVec 32
  mip : BitVec 32
  menvcfg : BitVec 64
  stimecmp : BitVec 64
  satp : BitVec 64
  powerDownFlag : Bool
  tlbRead : Tlb t
  tlbWrite : Tlb t
  tlbCode : Tlb t

namespace CpuState

def checks (s : CpuState t) : Checks t where
  priv := s.priv
  mstatus := s.mstatus
  mideleg := s.mideleg
  mie := s.mie
  mieWritten := s.mieWritten
  mip := s.mip
  menvcfg := s.menvcfg
  stimecmp := s.stimecmp
  satp := s.satp
  powerDownFlag := s.powerDownFlag
  tlbRead := s.tlbRead
  tlbWrite := s.tlbWrite
  tlbCode := s.tlbCode

end CpuState

def Checks.flush (k : Checks t) : Checks t :=
  { k with tlbRead := k.tlbRead.flush, tlbWrite := k.tlbWrite.flush, tlbCode := k.tlbCode.flush }

theorem tlbFlushAll_checks (s : CpuState t) : s.tlbFlushAll.checks = s.checks.flush := rfl

theorem Quiet.checks {s s' : CpuState t} (h : Quiet s s') : s'.checks = s.checks :=
  (congrArg CpuState.checks h :)

/-- The registers whose writes reach what the checks read, the protection registers
apart. -/
def Csr.checked : Csr → Bool
  | .sstatus | .mstatus | .sie | .mie | .sip | .mip | .mideleg | .stimecmp | .menvcfg
  | .satp => true
  | _ => false

namespace CpuState

variable {s : CpuState t}

@[simp] theorem setPriv_toRiscvCpuState (s : CpuState t) (r : RiscvCpuState) :
    (s.setPriv r).toRiscvCpuState = r := by
  unfold setPriv
  split <;> rfl

theorem setPmpcfg_checks (s : CpuState t) (first : Fin 16) (val : BitVec 64) :
    (s.setPmpcfg first val).2.checks = s.checks := by
  unfold setPmpcfg
  suffices h : ∀ (bytes : List Nat) (changed : Bool) (u : CpuState t), u.checks = s.checks →
      (bytes.foldl (fun (x : Bool × CpuState t) i =>
        let entry := first + Fin.ofNat 16 i
        if x.2.pmpcfg entry &&& pmpCfgL ≠ 0 then (x.1, x.2)
        else
          let cfg := pmpCfgOf ((val >>> (8 * i)).setWidth 8)
          if x.2.pmpcfg entry = cfg then (x.1, x.2)
          else (true, { x.2 with pmpcfg := fun j => if j = entry then cfg else x.2.pmpcfg j }))
        (changed, u)).2.checks = s.checks from h _ _ _ rfl
  intro bytes
  induction bytes with
  | nil => exact fun _ _ hu => hu
  | cons i bytes ih =>
    intro changed u hu
    rw [List.foldl_cons]
    dsimp only
    split
    · exact ih _ _ hu
    · split
      · exact ih _ _ hu
      · exact ih _ _ hu

theorem setPmpaddr_checks (s : CpuState t) (entry : Fin 16) (val : BitVec 64) :
    (s.setPmpaddr entry val).2.checks = s.checks := by
  unfold setPmpaddr
  split
  · rfl
  · split
    · rfl
    · split <;> rfl

theorem flushIf_checks {x : Bool × CpuState t} (h : x.2.checks = s.checks) :
    (flushIf x).2.checks = s.checks ∨ (flushIf x).2.checks = s.checks.flush := by
  obtain ⟨changed, u⟩ := x
  cases changed with
  | false => exact .inl h
  | true => exact .inr (congrArg Checks.flush h)

/-- Whether a write of `val` to the status word flushes the TLBs. -/
def mstatusFlushes (mstatus val : BitVec 64) : Prop :=
  (mstatus ^^^ val) &&& (mstatusMprv ||| mstatusSum ||| mstatusMxr) ≠ 0 ∨
    (mstatus &&& mstatusMprv ≠ 0 ∧ (mstatus ^^^ val) &&& mstatusMpp ≠ 0)

instance (mstatus val : BitVec 64) : Decidable (mstatusFlushes mstatus val) :=
  inferInstanceAs (Decidable (_ ∨ _))

theorem setMstatus_eq (s : CpuState t) (val : BitVec 64) :
    s.setMstatus val =
      { if mstatusFlushes s.mstatus val then s.tlbFlushAll else s with
        toRiscvCpuState := Cpu.setMstatus s.toRiscvCpuState val } := by
  by_cases h : mstatusFlushes s.mstatus val
  · rw [if_pos h]
    unfold setMstatus
    unfold mstatusFlushes at h
    simp only [if_pos h]
    rfl
  · rw [if_neg h]
    unfold setMstatus
    unfold mstatusFlushes at h
    simp only [if_neg h]

theorem setMstatus_priv (s : CpuState t) (val : BitVec 64) :
    (s.setMstatus val).priv = s.priv := by
  rw [setMstatus_eq]
  rfl

theorem setMstatus_mstatus (s : CpuState t) (val : BitVec 64) :
    (s.setMstatus val).mstatus = (Cpu.setMstatus s.toRiscvCpuState val).mstatus := by
  rw [setMstatus_eq]

theorem writeSstatus_snd (s : CpuState t) (val : BitVec 64) : (s.writeSstatus val).2 =
    s.setMstatus ((s.mstatus &&& ~~~sstatusMask) ||| (val &&& sstatusMask)) := by
  unfold writeSstatus
  dsimp only
  split <;> rfl

theorem writeMstatus_snd (s : CpuState t) (val : BitVec 64) :
    (s.writeMstatus val).2 = s.setMstatus val := by
  unfold writeMstatus
  dsimp only
  split <;> rfl

theorem refreshTimer_sameControls (s : CpuState t) (time : BitVec 64) :
    SameControls s (s.refreshTimer time) := by
  unfold refreshTimer
  split
  · exact updateTime_sameControls s time
  · rfl

theorem writeMenvcfg_sameControls (s : CpuState t) (time val : BitVec 64) :
    SameControls { s with menvcfg := ofEnvcfg (val &&& menvcfgMask) }
      (s.writeMenvcfg time val).2 := by
  unfold writeMenvcfg
  dsimp only
  by_cases h : ofEnvcfg (val &&& menvcfgMask) = s.menvcfg
  · rw [if_pos h, h]
    exact SameControls.refl s
  · rw [if_neg h]
    refine (refreshTimer_sameControls _ time).trans ?_
    split <;> split <;> rfl

theorem writeStimecmp_sameControls (s : CpuState t) (time val : BitVec 64) :
    SameControls { s with stimecmp := val }
      ({ s with stimecmp := val }.updateTime time).requestHost :=
  (updateTime_sameControls _ time).trans rfl

/-- A write to any other register at most flushes. -/
theorem writeCsr_checks (s : CpuState t) (time val : BitVec 64) {reg : Csr}
    (h : reg.checked = false) :
    (s.writeCsr time val reg).2.checks = s.checks ∨
      (s.writeCsr time val reg).2.checks = s.checks.flush := by
  cases reg with
  | sstatus | mstatus | sie | mie | sip | mip | mideleg | stimecmp | menvcfg | satp => cases h
  | pmpcfg0 | pmpcfg2 => exact flushIf_checks (setPmpcfg_checks s _ val)
  | pmpaddr i => exact flushIf_checks (setPmpaddr_checks s i val)
  | _ => exact .inl rfl

end CpuState

/-! ## The control registers as a whole -/

/-- The registers that only software writes, of those that the checks read. -/
structure Controls where
  priv : Privilege
  mstatus : BitVec 64
  mideleg : BitVec 32
  mie : BitVec 32
  mieWritten : BitVec 32
  menvcfg : BitVec 64
  stimecmp : BitVec 64
  satp : BitVec 64

def CpuState.controls (s : CpuState t) : Controls where
  priv := s.priv
  mstatus := s.mstatus
  mideleg := s.mideleg
  mie := s.mie
  mieWritten := s.mieWritten
  menvcfg := s.menvcfg
  stimecmp := s.stimecmp
  satp := s.satp

theorem SameControls.controls {s s' : CpuState t} (h : SameControls s s') :
    s'.controls = s.controls := (congrArg CpuState.controls h :)

theorem controls_of_checks {s s' : CpuState t}
    (h : s'.checks = s.checks ∨ s'.checks = s.checks.flush) : s'.controls = s.controls := by
  rcases h with h | h
  · exact (congrArg (fun k : Checks t => Controls.mk k.priv k.mstatus k.mideleg k.mie
      k.mieWritten k.menvcfg k.stimecmp k.satp) h :)
  · exact (congrArg (fun k : Checks t => Controls.mk k.priv k.mstatus k.mideleg k.mie
      k.mieWritten k.menvcfg k.stimecmp k.satp) h :)

/-- The status word after a write of `val`. -/
def statusWritten (mstatus val : BitVec 64) : BitVec 64 :=
  CpuState.merge mstatus val (mstatusMask &&& ~~~mstatusFs)

def mieMask : BitVec 32 := mipMsip ||| mipMtip ||| mipSsip ||| mipStip ||| mipSeip

/-- A write of `val` to a register that takes it. -/
def Controls.write (k : Controls) (val : BitVec 64) : Csr → Controls
  | .sstatus =>
    { k with mstatus := statusWritten k.mstatus (CpuState.merge k.mstatus val sstatusMask) }
  | .mstatus => { k with mstatus := statusWritten k.mstatus val }
  | .sie =>
    { k with
      mie := CpuState.merge k.mie (val.setWidth 32) k.mideleg
      mieWritten := CpuState.merge k.mieWritten (val.setWidth 32) k.mideleg }
  | .mie =>
    { k with
      mie := CpuState.merge k.mie (val.setWidth 32) mieMask
      mieWritten := val.setWidth 32 }
  | .mideleg =>
    { k with mideleg :=
        CpuState.merge k.mideleg (val.setWidth 32) (mipSsip ||| mipStip ||| mipSeip) }
  | .menvcfg => { k with menvcfg := CpuState.ofEnvcfg (val &&& menvcfgMask) }
  | .stimecmp => { k with stimecmp := val }
  | .satp =>
    { k with satp := (val &&& CpuState.satpPpnMask) ||| CpuState.satpMode k.satp val <<< 60 }
  | _ => k

theorem setMstatus_controls (s : CpuState t) (val : BitVec 64) :
    (s.setMstatus val).controls =
      { s.controls with mstatus := statusWritten s.mstatus val } := by
  rw [CpuState.setMstatus_eq]
  split <;> rfl

/-- A write to a register is the one above; to `stimecmp` it may fail. -/
theorem writeCsr_controls (s : CpuState t) (time val : BitVec 64) (reg : Csr) :
    (s.writeCsr time val reg).2.controls = s.controls.write val reg ∨
      (reg = .stimecmp ∧ (s.writeCsr time val reg).2.controls = s.controls) := by
  cases hchecked : reg.checked with
  | false =>
    have hsame := controls_of_checks (s.writeCsr_checks time val hchecked)
    cases reg with
    | sstatus | mstatus | sie | mie | sip | mip | mideleg | stimecmp | menvcfg | satp =>
      cases hchecked
    | _ => exact .inl hsame
  | true =>
    cases reg with
    | sstatus =>
      left
      show (s.writeSstatus val).2.controls = _
      rw [CpuState.writeSstatus_snd, setMstatus_controls]
      rfl
    | mstatus =>
      left
      show (s.writeMstatus val).2.controls = _
      rw [CpuState.writeMstatus_snd, setMstatus_controls]
      rfl
    | menvcfg => exact .inl (s.writeMenvcfg_sameControls time val).controls
    | stimecmp =>
      unfold CpuState.writeCsr
      dsimp only
      split
      · exact .inr ⟨rfl, rfl⟩
      · exact .inl (s.writeStimecmp_sameControls time val).controls
    | sie | mie | sip | mip | mideleg | satp => exact .inl rfl
    | _ => cases hchecked

/-- What every write to `reg` does, and what a failed one to `stimecmp` leaves. -/
theorem writeCsr_keeps {P : Controls → Prop} {s : CpuState t} {time val : BitVec 64} {reg : Csr}
    (hwrite : P (s.controls.write val reg)) (hsame : reg = .stimecmp → P s.controls) :
    P (s.writeCsr time val reg).2.controls := by
  rcases writeCsr_controls s time val reg with h | ⟨hreg, h⟩
  · rw [h]
    exact hwrite
  · rw [h]
    exact hsame hreg

/-! ## Invariants of the control registers -/

open TinyemuCore

/-- What makes `P` an invariant of the control registers in every run whose events are
`allowed`. -/
structure KeptByControls (env : Env t π) (allowed : TinyemuCore t π → Event π → Prop)
    (P : CpuState t → Prop) : Prop where
  init : P .init
  same : ∀ s s', SameControls s s' → P s → P s'
  trap : ∀ s cause tval, P s → P (s.raiseException2 cause tval)
  sret : ∀ s, P s → P (s.setPriv (handleSret s.toRiscvCpuState))
  mret : ∀ s, s.priv = .M → P s → P (s.setPriv (handleMret s.toRiscvCpuState))
  write : ∀ (c : TinyemuCore t π) insn csr val reg, allowed c (.insn insn) →
    (c.onCpu CpuState.tick).csrWriteOf insn = some (csr, val) →
    Csr.ofNumber csr = some reg → P c.cpu.tick →
    P (c.cpu.tick.writeCsr c.guestTimerTicks val reg).2

namespace KeptByControls

variable {env : Env t π} {allowed : TinyemuCore t π → Event π → Prop} {P : CpuState t → Prop}
  {c c' : TinyemuCore t π}

theorem control (hP : KeptByControls env allowed P) {insn : BitVec 32} {m : TinyemuCore t π}
    (h : Control (c.onCpu CpuState.tick) insn m) (hallowed : allowed c (.insn insn))
    (hc : P c.cpu.tick) : P m.cpu := by
  cases h with
  | csrWrite hwrite hcsr hresult =>
    obtain ⟨reg, hreg, -, hquiet, -⟩ := csrWrite_cases hcsr hresult
    exact hP.same _ _ hquiet.sameControls (hP.write c _ _ _ reg hallowed hwrite hreg hc)
  | sret => exact hP.sret _ hc
  | mret hpriv => exact hP.mret _ hpriv hc
  | sleep => exact hP.same _ _ (SameControls.refl c.cpu.tick) hc
  | fence => exact hP.same c.cpu.tick c.cpu.tick.tlbFlushAll rfl hc

theorem step (hP : KeptByControls env allowed P) {e : Event π} (h : Step env c e c')
    (hallowed : allowed c e) (hc : P c.cpu) : P c'.cpu := by
  cases h.turn with
  | touches _ htouches => exact hP.same _ _ htouches.sameControls.1 hc
  | trap cause tval _ htouches =>
    exact hP.trap _ cause tval (hP.same _ _ htouches.sameControls.1 hc)
  | control he hcontrol hquiet =>
    subst he
    have hticked : P c.cpu.tick := hP.same c.cpu _ rfl hc
    exact hP.same _ _ hquiet.sameControls (hP.control hcontrol hallowed hticked)
  | host he hnext =>
    rcases host_sameControls he hnext with hinit | hsame
    · rw [hinit]
      exact hP.init
    · exact hP.same _ _ hsame hc

theorem reached (hP : KeptByControls env allowed P) (h : Reached env allowed c) : P c.cpu := by
  induction h with
  | init hinit =>
    rw [hinit.cpu]
    exact hP.init
  | step _ hallowed hstep ih => exact hP.step hstep hallowed ih

end KeptByControls

end Cpu
end Riscbox

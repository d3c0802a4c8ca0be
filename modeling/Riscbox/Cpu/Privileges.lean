import Riscbox.Cpu.Status
import Riscbox.Cpu.Writes

/-!
# The privilege mode

`PRV_H` is reserved.  Trap entry and the returns keep the hart out of it as long as
`mstatus.MPP` does not hold it, and only a write to `mstatus` can put it there.
-/

namespace Riscbox
namespace Cpu

variable {t : Target} {π : Type}

/-- The modes that the hart implements. -/
def Privilege.Implemented (p : Privilege) : Prop := p = .U ∨ p = .S ∨ p = .M

theorem Privilege.implemented_iff (p : Privilege) : p.Implemented ↔ p ≠ .H := by
  unfold Implemented
  cases p <;> decide

/-- The hart is in a mode that it implements, the previous modes are such modes, and so
is the mode of every access. -/
structure CpuState.LegalMode (s : CpuState t) : Prop where
  priv : s.priv.Implemented
  mpp : (mppOf s.mstatus).Implemented
  spp : sppOf s.mstatus = .U ∨ sppOf s.mstatus = .S
  effective : ∀ access, (s.getEffectivePriv access).Implemented

namespace CpuState

variable {s s' : CpuState t}

theorem legalMode_iff : s.LegalMode ↔ s.priv ≠ .H ∧ mppOf s.mstatus ≠ .H := by
  constructor
  · intro h
    exact ⟨(Privilege.implemented_iff _).mp h.priv, (Privilege.implemented_iff _).mp h.mpp⟩
  · intro h
    have hpriv := (Privilege.implemented_iff _).mpr h.1
    have hmpp := (Privilege.implemented_iff _).mpr h.2
    refine ⟨hpriv, hmpp, sppOf_eq s.mstatus, ?_⟩
    intro access
    unfold getEffectivePriv
    split
    · exact hmpp
    · exact hpriv

theorem LegalMode.of_eq (h : s.LegalMode) (hpriv : s'.priv = s.priv)
    (hmstatus : s'.mstatus = s.mstatus) : s'.LegalMode := by
  rw [legalMode_iff] at h ⊢
  rw [hpriv, hmstatus]
  exact h

theorem legalMode_init : (CpuState.init : CpuState t).LegalMode := by
  rw [legalMode_iff]
  exact ⟨by simp [CpuState.init], by simp [CpuState.init, mppOf, Privilege.ofField]⟩

/-! ## What one step preserves -/

theorem LegalMode.raiseException2 (h : s.LegalMode) (cause : BitVec 32) (tval : BitVec 64) :
    (s.raiseException2 cause tval).LegalMode := by
  rw [legalMode_iff] at h ⊢
  unfold CpuState.raiseException2
  rw [setPriv_toRiscvCpuState]
  cases hd : delegated s.toRiscvCpuState cause with
  | true =>
    have hpriv : (Cpu.raiseException2 s.toRiscvCpuState cause tval).priv = .S := by
      rw [Cpu.raiseException2, if_pos hd]
    have hmpp := (raise_delegated_keeps hd tval).mppOf (by decide) (by decide)
    rw [hpriv, hmpp]
    exact ⟨by decide, h.2⟩
  | false =>
    have hpriv : (Cpu.raiseException2 s.toRiscvCpuState cause tval).priv = .M := by
      rw [Cpu.raiseException2, hd, if_neg Bool.false_ne_true]
    rw [hpriv, raise_undelegated_mpp hd]
    exact ⟨by decide, h.1⟩

theorem LegalMode.sret (h : s.LegalMode) :
    (s.setPriv (handleSret s.toRiscvCpuState)).LegalMode := by
  rw [legalMode_iff] at h ⊢
  have hspp : sppOf s.mstatus ≠ .H := by
    rcases sppOf_eq s.mstatus with hu | hs
    · rw [hu]
      decide
    · rw [hs]
      decide
  rw [setPriv_toRiscvCpuState, handleSret_priv,
    (handleSret_keeps s.toRiscvCpuState).mppOf (by decide) (by decide)]
  exact ⟨hspp, h.2⟩

theorem LegalMode.mret (h : s.LegalMode) :
    (s.setPriv (handleMret s.toRiscvCpuState)).LegalMode := by
  rw [legalMode_iff] at h ⊢
  rw [setPriv_toRiscvCpuState, handleMret_priv, handleMret_mpp]
  exact ⟨h.2, by decide⟩

end CpuState

theorem statusWritten_mpp (mstatus val : BitVec 64) :
    mppOf (statusWritten mstatus val) = mppOf val := by
  have hmask : ∀ i ∈ [11, 12], i < 64 ∧
      (mstatusMask &&& ~~~mstatusFs).getLsbD i = true := by decide
  have hkeeps : Keeps [11, 12] val (statusWritten mstatus val) := by
    intro i hi
    unfold statusWritten CpuState.merge
    rw [getLsbD_merge _ _ _ (hmask i hi).1, if_pos (hmask i hi).2]
  exact hkeeps.mppOf (by decide) (by decide)

theorem Controls.write_mpp (k : Controls) (val : BitVec 64) (reg : Csr) :
    mppOf (k.write val reg).mstatus =
      if reg = .mstatus then mppOf val else mppOf k.mstatus := by
  cases reg with
  | mstatus =>
    rw [if_pos rfl]
    exact statusWritten_mpp k.mstatus val
  | sstatus =>
    rw [if_neg (by decide)]
    show mppOf (statusWritten _ _) = _
    rw [statusWritten_mpp]
    exact (sstatus_keeps k.mstatus val).mppOf (by decide) (by decide)
  | pmpaddr i =>
    rw [if_neg Csr.noConfusion]
    rfl
  | _ => rfl

theorem Controls.write_priv (k : Controls) (val : BitVec 64) (reg : Csr) :
    (k.write val reg).priv = k.priv := by
  cases reg <;> rfl

namespace CpuState

/-- What a write to a register does to the mode and to `mstatus.MPP`. -/
theorem writeCsr_mode (s : CpuState t) (time val : BitVec 64) (reg : Csr) :
    (s.writeCsr time val reg).2.priv = s.priv ∧
      mppOf (s.writeCsr time val reg).2.mstatus =
        if reg = .mstatus then mppOf val else mppOf s.mstatus := by
  apply writeCsr_keeps (P := fun k => k.priv = s.priv ∧
    mppOf k.mstatus = if reg = .mstatus then mppOf val else mppOf s.mstatus)
  · exact ⟨Controls.write_priv _ val reg, Controls.write_mpp _ val reg⟩
  · intro hreg
    rw [hreg, if_neg (by decide)]
    exact ⟨rfl, rfl⟩

end CpuState

namespace TinyemuCore

/-- The event writes to `mstatus` a value whose `MPP` field is the reserved mode. -/
def WritesReservedMpp (c : TinyemuCore t π) : Event π → Prop
  | .insn insn => ∃ csr val, (c.onCpu CpuState.tick).csrWriteOf insn = some (csr, val) ∧
      Csr.ofNumber csr = some .mstatus ∧ mppOf val = .H
  | _ => False

variable {env : Env t π} {c c' : TinyemuCore t π} {e : Event π}

theorem legalMode_kept (env : Env t π) :
    KeptByControls env (fun c e => ¬c.WritesReservedMpp e) CpuState.LegalMode where
  init := CpuState.legalMode_init
  same := fun _ _ hsame hlegal => hlegal.of_eq hsame.priv hsame.mstatus
  trap := fun _ cause tval hlegal => hlegal.raiseException2 cause tval
  sret := fun _ hlegal => hlegal.sret
  mret := fun _ _ hlegal => hlegal.mret
  write := by
    intro c insn csr val reg hallowed hwrite hreg hlegal
    obtain ⟨hpriv, hmpp⟩ := c.cpu.tick.writeCsr_mode c.guestTimerTicks val reg
    rw [CpuState.legalMode_iff] at hlegal ⊢
    rw [hpriv, hmpp]
    refine ⟨hlegal.1, ?_⟩
    by_cases hmstatus : reg = .mstatus
    · rw [if_pos hmstatus]
      rw [hmstatus] at hreg
      exact fun hreserved => hallowed ⟨csr, val, hwrite, hreg, hreserved⟩
    · rw [if_neg hmstatus]
      exact hlegal.2

/-- The write that the legal runs leave out. -/
theorem illegal_of_writesReservedMpp (h : Step env c e c') (hwrites : c.WritesReservedMpp e) :
    mppOf c'.cpu.mstatus = .H := by
  cases e with
  | insn insn =>
    obtain ⟨csr, val, hwrite, hreg, hreserved⟩ := hwrites
    have hok : (c.cpu.tick.writeCsr c.guestTimerTicks val .mstatus).1 ≠ .error :=
      CpuState.writeMstatus_ne_error _ val
    have hquiet : Quiet (c.cpu.tick.writeCsr c.guestTimerTicks val .mstatus).2
        (c.runInsn env insn).cpu := runInsn_of_csrWriteOf hwrite hreg (by decide) hok
    have hmpp := (c.cpu.tick.writeCsr_mode c.guestTimerTicks val .mstatus).2
    rw [if_pos rfl] at hmpp
    obtain ⟨-, h⟩ := h
    cases h
    rw [hquiet.sameControls.mstatus, hmpp, hreserved]
  | _ => exact hwrites.elim

/-- In a run that writes no reserved mode to `mstatus.MPP` the hart is always in a legal
mode, and the first write of one ends that. -/
theorem legalMode_reached (env : Env t π) :
    (∀ c, Reached env (fun c e => ¬c.WritesReservedMpp e) c → c.cpu.LegalMode) ∧
      ∀ c c' e, Step env c e c' → c.WritesReservedMpp e → ¬c'.cpu.LegalMode := by
  constructor
  · exact fun c h => (legalMode_kept env).reached h
  · intro c c' e hstep hwrites hlegal
    exact (CpuState.legalMode_iff.mp hlegal).2 (illegal_of_writesReservedMpp hstep hwrites)

/-- `mret` after reset enters user mode. -/
theorem legalMode_reached_mret :
    ((bareCore .native64).runInsns (bareEnv .native64) [0x30200073]).cpu.priv = .U ∧
      ((bareCore .native64).runInsns (bareEnv .native64) [0x30200073]).cpu.LegalMode := by
  have hallowed : ¬(bareCore .native64).WritesReservedMpp (.insn 0x30200073) := by
    rintro ⟨csr, val, hwrite, -⟩
    cases hwrite
  have hstep : Step (bareEnv .native64) (bareCore .native64) (.insn 0x30200073)
      ((bareCore .native64).runInsns (bareEnv .native64) [0x30200073]) := ⟨fun _ => rfl, rfl⟩
  have hreached : Reached (bareEnv .native64) (fun c e => ¬c.WritesReservedMpp e) _ :=
    (Reached.init (initial_bareCore .native64)).step hallowed hstep
  exact ⟨by decide, (legalMode_reached (bareEnv .native64)).1 _ hreached⟩

/-- `lui x1, 1`, `csrw mstatus, x1` and `mret`. -/
def enterReservedMode : List (BitVec 32) := [0x000010b7, 0x30009073, 0x30200073]

theorem legalMode_reserved :
    ¬∀ c, Reached (bareEnv .native64) (fun _ _ => True) c → c.cpu.LegalMode := by
  intro h
  have hrun : ((bareCore .native64).runEvents (bareEnv .native64)
      (enterReservedMode.map .insn)).map (fun c => c.cpu.priv) = some .H := by decide
  obtain ⟨c, hrun, hpriv⟩ := Option.map_eq_some_iff.mp hrun
  have hlegal := h c (reached_runEvents (.init (initial_bareCore .native64)) hrun)
  exact (CpuState.legalMode_iff.mp hlegal).1 hpriv

end TinyemuCore

end Cpu
end Riscbox

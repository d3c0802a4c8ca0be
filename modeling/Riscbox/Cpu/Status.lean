import Riscbox.Cpu.Trap

/-!
# The fields of the status word

Which bits of `mstatus` trap entry, the two returns and the writes move, and what they
leave in the fields that the privilege checks read.
-/

namespace Riscbox
namespace Cpu

/-! ## Fields -/

/-- The mode in `mstatus.MPP`. -/
def mppOf (mstatus : BitVec 64) : Privilege :=
  Privilege.ofField (mstatus >>> mstatusMppShift &&& 3)

/-- The mode in `mstatus.SPP`. -/
def sppOf (mstatus : BitVec 64) : Privilege :=
  Privilege.ofField (mstatus >>> mstatusSppShift &&& 1)

theorem mppOf_bits (m : BitVec 64) : mppOf m = Privilege.ofField
    (BitVec.ofNat 64 ((m.getLsbD 11).toNat + 2 * (m.getLsbD 12).toNat)) := by
  unfold mppOf
  rw [field_two]
  rfl

theorem mppOf_congr {m m' : BitVec 64} (h₁₁ : m.getLsbD 11 = m'.getLsbD 11)
    (h₁₂ : m.getLsbD 12 = m'.getLsbD 12) : mppOf m = mppOf m' := by
  rw [mppOf_bits, mppOf_bits, h₁₁, h₁₂]

theorem sppOf_eq (m : BitVec 64) : sppOf m = .U ∨ sppOf m = .S := by
  unfold sppOf
  rw [field_one]
  split
  · exact .inr rfl
  · exact .inl rfl

/-- The words agree in the bits. -/
def Keeps (bits : List Nat) (m m' : BitVec 64) : Prop := ∀ i ∈ bits, m'.getLsbD i = m.getLsbD i

/-! ## Trap entry, returns and writes -/

section Moves

variable {s : RiscvCpuState} {cause : BitVec 32}

theorem raise_delegated_keeps (h : delegated s cause = true) (tval : BitVec 64) :
    Keeps [3, 11, 12, 17, 18, 19] s.mstatus (raiseException2 s cause tval).mstatus := by
  unfold raiseException2
  rw [if_pos h]
  rcases delegated_priv h with hp | hp <;>
    simp [Keeps, hp, Privilege.code, mstatusSpie, mstatusSpieShift, mstatusSpp,
      mstatusSppShift, mstatusSie]

theorem raise_undelegated_keeps (h : delegated s cause = false) (tval : BitVec 64) :
    Keeps [1, 17, 18, 19] s.mstatus (raiseException2 s cause tval).mstatus := by
  unfold raiseException2
  rw [h, if_neg Bool.false_ne_true]
  cases hp : s.priv <;>
    simp [Keeps, Privilege.code, mstatusMpie, mstatusMpieShift, mstatusMpp,
      mstatusMppShift, mstatusMie]

theorem raise_undelegated_mpp (h : delegated s cause = false) (tval : BitVec 64) :
    mppOf (raiseException2 s cause tval).mstatus = s.priv := by
  obtain ⟨-, -, h₁₁, h₁₂, -⟩ := raise_undelegated h tval
  rw [mppOf_bits, h₁₁, h₁₂, ofField_code]

theorem handleSret_keeps (s : RiscvCpuState) :
    Keeps [3, 11, 12, 18, 19] s.mstatus (handleSret s).mstatus := by
  unfold handleSret
  dsimp only
  split <;>
    simp [Keeps, mstatusSie, mstatusSpie, mstatusSpieShift, mstatusSpp, mstatusSppShift,
      mstatusMprv]

theorem handleSret_mprv (s : RiscvCpuState) : (handleSret s).mstatus.getLsbD 17 = false := by
  simp [handleSret, mstatusMprv]

theorem handleSret_priv (s : RiscvCpuState) : (handleSret s).priv = sppOf s.mstatus := rfl

theorem handleMret_keeps (s : RiscvCpuState) :
    Keeps [1, 18, 19] s.mstatus (handleMret s).mstatus := by
  unfold handleMret
  dsimp only
  split <;> split <;>
    simp [Keeps, mstatusMie, mstatusMpie, mstatusMpieShift, mstatusMpp, mstatusMppShift,
      mstatusMprv]

theorem handleMret_mpp (s : RiscvCpuState) : mppOf (handleMret s).mstatus = .U := by
  have hbits : (handleMret s).mstatus.getLsbD 11 = false ∧
      (handleMret s).mstatus.getLsbD 12 = false := by
    unfold handleMret
    dsimp only
    split <;> split <;>
      simp [mstatusMie, mstatusMpie, mstatusMpieShift, mstatusMpp, mstatusMppShift,
        mstatusMprv]
  rw [mppOf_bits, hbits.1, hbits.2]
  rfl

theorem handleMret_priv (s : RiscvCpuState) : (handleMret s).priv = mppOf s.mstatus := rfl

theorem handleMret_mprv (s : RiscvCpuState) :
    (handleMret s).mstatus.getLsbD 17 =
      (s.mstatus.getLsbD 17 && decide (mppOf s.mstatus = .M)) := by
  have hmachine : mppOf s.mstatus = .M ↔ ¬s.mstatus >>> mstatusMppShift &&& 3 < 3 := by
    rw [mppOf_bits, field_two, mstatusMppShift]
    cases s.mstatus.getLsbD 11 <;> cases s.mstatus.getLsbD 12 <;> decide
  unfold handleMret
  dsimp only
  by_cases hlow : s.mstatus >>> mstatusMppShift &&& 3 < 3
  · rw [if_pos hlow, decide_eq_false (fun h => hmachine.mp h hlow)]
    simp [mstatusMprv]
  · rw [if_neg hlow, decide_eq_true (hmachine.mpr hlow)]
    split <;>
      simp [mstatusMie, mstatusMpie, mstatusMpieShift, mstatusMpp, mstatusMppShift]

/-- A write to the status word, in the bits that the checks read. -/
theorem setMstatus_keeps (s : RiscvCpuState) (val : BitVec 64) :
    Keeps [1, 3, 11, 12, 17, 18, 19] val (setMstatus s val).mstatus := by
  have hmask : ∀ i ∈ [1, 3, 11, 12, 17, 18, 19], i < 64 ∧
      (mstatusMask &&& ~~~mstatusFs).getLsbD i = true := by decide
  intro i hi
  obtain ⟨hlt, hbit⟩ := hmask i hi
  unfold setMstatus
  dsimp only
  rw [getLsbD_merge _ _ _ hlt, if_pos hbit]

theorem sstatus_keeps (mstatus val : BitVec 64) :
    Keeps [3, 11, 12, 17] mstatus ((mstatus &&& ~~~sstatusMask) ||| (val &&& sstatusMask)) := by
  have hmask : ∀ i ∈ [3, 11, 12, 17], i < 64 ∧ ¬sstatusMask.getLsbD i = true := by decide
  intro i hi
  obtain ⟨hlt, hbit⟩ := hmask i hi
  rw [getLsbD_merge _ _ _ hlt, if_neg hbit]

theorem Keeps.mppOf {bits : List Nat} {m m' : BitVec 64} (h : Keeps bits m m')
    (h₁₁ : 11 ∈ bits) (h₁₂ : 12 ∈ bits) : mppOf m' = mppOf m :=
  mppOf_congr (h 11 h₁₁) (h 12 h₁₂)

end Moves

end Cpu
end Riscbox

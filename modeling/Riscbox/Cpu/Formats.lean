import Riscbox.Cpu.Compressed

/-!
# Instruction formats

The words of the 32-bit instructions by their fields, and the fields that the
interpreter reads back from them.  A word is the union of its fields, so that every
proof about it is a statement about one bit at a time.
-/

namespace Riscbox
namespace Cpu

/-! ## Sign extension -/

theorem toNat_signMask {m : Nat} (hm : m < 32) :
    ((1 <<< m : Nat) : BitVec 32).toNat = 2 ^ m := by
  have hpow : 2 ^ m < 2 ^ 32 := Nat.pow_lt_pow_right (by decide) hm
  rw [Nat.one_shiftLeft]
  exact Nat.mod_eq_of_lt hpow

theorem toNat_and_mask (val : BitVec 32) {m : Nat} (hm : m < 32) :
    (val &&& (((1 <<< m : Nat) : BitVec 32) - 1)).toNat = val.toNat % 2 ^ m := by
  have hle : (1 : BitVec 32) ≤ ((1 <<< m : Nat) : BitVec 32) := by
    rw [BitVec.le_def, toNat_signMask hm]
    exact Nat.two_pow_pos m
  have hmask : (((1 <<< m : Nat) : BitVec 32) - 1).toNat = 2 ^ m - 1 := by
    rw [BitVec.toNat_sub_of_le hle, toNat_signMask hm]
    rfl
  rw [BitVec.toNat_and, hmask, Nat.and_two_pow_sub_one_eq_mod]

theorem toNat_and_bit (val : BitVec 32) {m : Nat} (hm : m < 32) :
    (val &&& ((1 <<< m : Nat) : BitVec 32)).toNat = if val.getLsbD m then 2 ^ m else 0 := by
  have hbit : ((1 <<< m : Nat) : BitVec 32) = BitVec.twoPow 32 m := by
    apply BitVec.eq_of_toNat_eq
    rw [toNat_signMask hm, BitVec.toNat_twoPow_of_lt hm]
  rw [hbit, BitVec.and_twoPow]
  split
  · rw [BitVec.toNat_twoPow_of_lt hm]
  · rfl

theorem mod_two_pow_succ (val : BitVec 32) (m : Nat) :
    val.toNat % 2 ^ (m + 1) = val.toNat % 2 ^ m + if val.getLsbD m then 2 ^ m else 0 := by
  have hbit : val.getLsbD m = decide (val.toNat / 2 ^ m % 2 = 1) :=
    Nat.testBit_eq_decide_div_mod_eq
  rw [Nat.mod_pow_succ, hbit]
  rcases Nat.mod_two_eq_zero_or_one (val.toNat / 2 ^ m) with h | h <;> simp [h]

/-- The arithmetic of `sext` is sign extension. -/
theorem sext_eq (val : BitVec 32) {m : Nat} (hm : m < 32) :
    sext val (m + 1) = (val.setWidth (m + 1)).signExtend 32 := by
  apply BitVec.eq_of_toNat_eq
  have hpow : 2 ^ (m + 1) ≤ 2 ^ 32 := Nat.pow_le_pow_right (by decide) hm
  have hdouble : 2 ^ (m + 1) = 2 * 2 ^ m := by rw [Nat.pow_succ]; omega
  have hlow : val.toNat % 2 ^ m < 2 ^ m := Nat.mod_lt _ (Nat.two_pow_pos m)
  have hmsb : (val.setWidth (m + 1)).msb = val.getLsbD m := by
    rw [BitVec.msb_setWidth]
    simp
  rw [BitVec.toNat_signExtend, hmsb, sext, Nat.add_sub_cancel, BitVec.toNat_sub,
    toNat_and_mask val hm, toNat_and_bit val hm, BitVec.toNat_setWidth, BitVec.toNat_setWidth,
    mod_two_pow_succ]
  split <;> omega

/-! ## Formats -/

/-- A field of an instruction at its position. -/
def field {w : Nat} (val : BitVec w) (pos : Nat) : BitVec 32 := val.setWidth 32 <<< pos

@[simp] theorem getElem_field {w : Nat} (val : BitVec w) (pos i : Nat) (h : i < 32) :
    (field val pos)[i] = (decide (pos ≤ i) && val.getLsbD (i - pos)) := by
  unfold field
  rw [BitVec.getElem_shiftLeft, BitVec.getElem_setWidth]
  by_cases hpos : pos ≤ i
  · simp [hpos, Nat.not_lt.mpr hpos]
  · simp [hpos, Nat.lt_of_not_le hpos]

def rType (funct7 : BitVec 7) (rs2 rs1 : BitVec 5) (funct3 : BitVec 3) (rd : BitVec 5)
    (opcode : BitVec 7) : BitVec 32 :=
  field funct7 25 ||| field rs2 20 ||| field rs1 15 ||| field funct3 12 ||| field rd 7 |||
    field opcode 0

def iType (imm : BitVec 12) (rs1 : BitVec 5) (funct3 : BitVec 3) (rd : BitVec 5)
    (opcode : BitVec 7) : BitVec 32 :=
  field imm 20 ||| field rs1 15 ||| field funct3 12 ||| field rd 7 ||| field opcode 0

def sType (imm : BitVec 12) (rs2 rs1 : BitVec 5) (funct3 : BitVec 3) (opcode : BitVec 7) :
    BitVec 32 :=
  rType (imm.extractLsb' 5 7) rs2 rs1 funct3 (imm.extractLsb' 0 5) opcode

/-- A branch; the lowest bit of its offset is not encoded. -/
def bType (imm : BitVec 13) (rs2 rs1 : BitVec 5) (funct3 : BitVec 3) (opcode : BitVec 7) :
    BitVec 32 :=
  field (imm.extractLsb' 12 1) 31 ||| field (imm.extractLsb' 5 6) 25 ||| field rs2 20 |||
    field rs1 15 ||| field funct3 12 ||| field (imm.extractLsb' 1 4) 8 |||
    field (imm.extractLsb' 11 1) 7 ||| field opcode 0

def uType (imm : BitVec 20) (rd : BitVec 5) (opcode : BitVec 7) : BitVec 32 :=
  field imm 12 ||| field rd 7 ||| field opcode 0

/-- A jump; the lowest bit of its offset is not encoded. -/
def jType (imm : BitVec 21) (rd : BitVec 5) (opcode : BitVec 7) : BitVec 32 :=
  field (imm.extractLsb' 20 1) 31 ||| field (imm.extractLsb' 1 10) 21 |||
    field (imm.extractLsb' 11 1) 20 ||| field (imm.extractLsb' 12 8) 12 ||| field rd 7 |||
    field opcode 0

/-! ## Fields -/

theorem opcodeOf_eq (insn : BitVec 32) : opcodeOf insn = (insn.extractLsb' 0 7).toNat := by
  have hmask : insn &&& 0x7f = (insn.extractLsb' 0 7).setWidth 32 := by
    ext i hi
    interval_cases i <;> simp
  rw [opcodeOf, hmask, BitVec.toNat_setWidth]
  exact Nat.mod_eq_of_lt (Nat.lt_trans (BitVec.isLt _) (by decide))

theorem funct3Of_eq (insn : BitVec 32) : funct3Of insn = (insn.extractLsb' 12 3).toNat := by
  have hmask : insn >>> 12 &&& 7 = (insn.extractLsb' 12 3).setWidth 32 := by
    ext i hi
    interval_cases i <;> simp
  rw [funct3Of, hmask, BitVec.toNat_setWidth]
  exact Nat.mod_eq_of_lt (Nat.lt_trans (BitVec.isLt _) (by decide))

theorem and_three_eq (insn : BitVec 32) :
    (insn &&& 3).toNat = (insn.extractLsb' 0 2).toNat := by
  have hmask : insn &&& 3 = (insn.extractLsb' 0 2).setWidth 32 := by
    ext i hi
    interval_cases i <;> simp
  rw [hmask, BitVec.toNat_setWidth]
  exact Nat.mod_eq_of_lt (Nat.lt_trans (BitVec.isLt _) (by decide))

section

variable (funct7 : BitVec 7) (rs2 rs1 : BitVec 5) (funct3 : BitVec 3) (rd : BitVec 5)
  (opcode : BitVec 7)

@[simp] theorem opcodeOf_rType :
    opcodeOf (rType funct7 rs2 rs1 funct3 rd opcode) = opcode.toNat := by
  rw [opcodeOf_eq]
  congr 1
  ext i hi
  interval_cases i <;> simp [rType]

@[simp] theorem rdOf_rType : rdOf (rType funct7 rs2 rs1 funct3 rd opcode) = rd := by
  ext i hi
  interval_cases i <;> simp [rdOf, rType]

@[simp] theorem rs1Of_rType : rs1Of (rType funct7 rs2 rs1 funct3 rd opcode) = rs1 := by
  ext i hi
  interval_cases i <;> simp [rs1Of, rType]

@[simp] theorem rs2Of_rType : rs2Of (rType funct7 rs2 rs1 funct3 rd opcode) = rs2 := by
  ext i hi
  interval_cases i <;> simp [rs2Of, rType]

@[simp] theorem funct3Of_rType :
    funct3Of (rType funct7 rs2 rs1 funct3 rd opcode) = funct3.toNat := by
  rw [funct3Of_eq]
  congr 1
  ext i hi
  interval_cases i <;> simp [rType]

@[simp] theorem rType_shift_25 :
    rType funct7 rs2 rs1 funct3 rd opcode >>> 25 = funct7.setWidth 32 := by
  ext i hi
  interval_cases i <;> simp [rType]

end

section

variable (imm : BitVec 12) (rs2 rs1 : BitVec 5) (funct3 : BitVec 3) (rd : BitVec 5)
  (opcode : BitVec 7)

@[simp] theorem opcodeOf_iType : opcodeOf (iType imm rs1 funct3 rd opcode) = opcode.toNat := by
  rw [opcodeOf_eq]
  congr 1
  ext i hi
  interval_cases i <;> simp [iType]

@[simp] theorem rdOf_iType : rdOf (iType imm rs1 funct3 rd opcode) = rd := by
  ext i hi
  interval_cases i <;> simp [rdOf, iType]

@[simp] theorem rs1Of_iType : rs1Of (iType imm rs1 funct3 rd opcode) = rs1 := by
  ext i hi
  interval_cases i <;> simp [rs1Of, iType]

@[simp] theorem funct3Of_iType :
    funct3Of (iType imm rs1 funct3 rd opcode) = funct3.toNat := by
  rw [funct3Of_eq]
  congr 1
  ext i hi
  interval_cases i <;> simp [iType]

@[simp] theorem immI_iType : immI (iType imm rs1 funct3 rd opcode) = imm.signExtend 32 := by
  ext i hi
  interval_cases i <;>
    simp [immI, iType, BitVec.getElem_sshiftRight, BitVec.getElem_signExtend,
      BitVec.msb_eq_getLsbD_last]

@[simp] theorem opcodeOf_sType : opcodeOf (sType imm rs2 rs1 funct3 opcode) = opcode.toNat :=
  opcodeOf_rType _ _ _ _ _ _

@[simp] theorem rs1Of_sType : rs1Of (sType imm rs2 rs1 funct3 opcode) = rs1 :=
  rs1Of_rType _ _ _ _ _ _

@[simp] theorem rs2Of_sType : rs2Of (sType imm rs2 rs1 funct3 opcode) = rs2 :=
  rs2Of_rType _ _ _ _ _ _

@[simp] theorem funct3Of_sType : funct3Of (sType imm rs2 rs1 funct3 opcode) = funct3.toNat :=
  funct3Of_rType _ _ _ _ _ _

@[simp] theorem immS_sType : immS (sType imm rs2 rs1 funct3 opcode) = imm.signExtend 32 := by
  rw [immS, sext_eq _ (show 11 < 32 by decide)]
  congr 1
  ext i hi
  interval_cases i <;> simp [sType, rType, rdOf]

end

section

variable (imm : BitVec 13) (rs2 rs1 : BitVec 5) (funct3 : BitVec 3) (opcode : BitVec 7)

@[simp] theorem opcodeOf_bType : opcodeOf (bType imm rs2 rs1 funct3 opcode) = opcode.toNat := by
  rw [opcodeOf_eq]
  congr 1
  ext i hi
  interval_cases i <;> simp [bType]

@[simp] theorem rs1Of_bType : rs1Of (bType imm rs2 rs1 funct3 opcode) = rs1 := by
  ext i hi
  interval_cases i <;> simp [rs1Of, bType]

@[simp] theorem rs2Of_bType : rs2Of (bType imm rs2 rs1 funct3 opcode) = rs2 := by
  ext i hi
  interval_cases i <;> simp [rs2Of, bType]

@[simp] theorem funct3Of_bType : funct3Of (bType imm rs2 rs1 funct3 opcode) = funct3.toNat := by
  rw [funct3Of_eq]
  congr 1
  ext i hi
  interval_cases i <;> simp [bType]

theorem immB_bType (heven : imm.getLsbD 0 = false) :
    immB (bType imm rs2 rs1 funct3 opcode) = imm.signExtend 32 := by
  rw [immB, sext_eq _ (show 12 < 32 by decide)]
  congr 1
  ext i hi
  interval_cases i
  · simpa [bType] using heven.symm
  all_goals simp [bType]

end

section

variable (rd : BitVec 5) (opcode : BitVec 7)

@[simp] theorem opcodeOf_uType (imm : BitVec 20) :
    opcodeOf (uType imm rd opcode) = opcode.toNat := by
  rw [opcodeOf_eq]
  congr 1
  ext i hi
  interval_cases i <;> simp [uType]

@[simp] theorem rdOf_uType (imm : BitVec 20) : rdOf (uType imm rd opcode) = rd := by
  ext i hi
  interval_cases i <;> simp [rdOf, uType]

@[simp] theorem immU_uType (imm : BitVec 20) : immU (uType imm rd opcode) = field imm 12 := by
  ext i hi
  interval_cases i <;> simp [immU, uType]

@[simp] theorem opcodeOf_jType (imm : BitVec 21) :
    opcodeOf (jType imm rd opcode) = opcode.toNat := by
  rw [opcodeOf_eq]
  congr 1
  ext i hi
  interval_cases i <;> simp [jType]

@[simp] theorem rdOf_jType (imm : BitVec 21) : rdOf (jType imm rd opcode) = rd := by
  ext i hi
  interval_cases i <;> simp [rdOf, jType]

theorem immJ_jType (imm : BitVec 21) (heven : imm.getLsbD 0 = false) :
    immJ (jType imm rd opcode) = imm.signExtend 32 := by
  rw [immJ, sext_eq _ (show 20 < 32 by decide)]
  congr 1
  ext i hi
  interval_cases i
  · simpa [jType] using heven.symm
  all_goals simp [jType]

end

end Cpu
end Riscbox

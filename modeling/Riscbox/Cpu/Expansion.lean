import Riscbox.Cpu.Formats

/-!
# The expansion of the 16-bit instructions

`expand` is the table of the C and Zcb extensions: for each 16-bit encoding the 32-bit
instruction that it stands for, and nothing for the encodings that they reserve.  The
second part relates the fields of the table to those that the interpreter shuffles
together.
-/

namespace Riscbox
namespace Cpu
namespace Expansion

/-! ## The table -/

/-- The bits of an immediate that an encoding holds from bit `pos` downwards; `layout`
says which bit of the immediate each of them is. -/
def scattered (w : Nat) (half : BitVec 16) : Nat → List Nat → BitVec w
  | _, [] => 0
  | pos, bit :: layout =>
    (BitVec.ofBool (half.getLsbD pos)).setWidth w <<< bit ||| scattered w half (pos - 1) layout

@[simp] theorem getElem_scattered_nil {w pos i : Nat} (half : BitVec 16)
    (hi : i < w) : (scattered w half pos [])[i] = false := BitVec.getElem_zero hi

@[simp] theorem getElem_scattered_cons {w pos bit i : Nat} (half : BitVec 16)
    (layout : List Nat) (hi : i < w) : (scattered w half pos (bit :: layout))[i] =
      ((decide (bit = i) && half.getLsbD pos) || (scattered w half (pos - 1) layout)[i]) := by
  rw [scattered, BitVec.getElem_or, BitVec.getElem_shiftLeft]
  congr 1
  rcases Nat.lt_trichotomy i bit with h | h | h
  · simp [h, Nat.ne_of_gt h]
  · simp [h]
  · have hpos : i - bit ≠ 0 := by omega
    simp [Nat.ne_of_lt h, Nat.not_lt_of_lt h, hpos]

section

variable (half : BitVec 16)

/-- A register of `x8` to `x15`. -/
def creg (pos : Nat) : BitVec 5 := (half.extractLsb' pos 3).setWidth 5 ||| 8

def rd : BitVec 5 := half.extractLsb' 7 5

def rs2 : BitVec 5 := half.extractLsb' 2 5

def funct3 : Nat := (half.extractLsb' 13 3).toNat

def spnImm : BitVec 12 := scattered 12 half 12 [5, 4, 9, 8, 7, 6, 2, 3]

def doubleImm : BitVec 12 := scattered 12 half 12 [5, 4, 3] ||| scattered 12 half 6 [7, 6]

def wordImm : BitVec 12 := scattered 12 half 12 [5, 4, 3] ||| scattered 12 half 6 [2, 6]

def byteImm : BitVec 12 := scattered 12 half 6 [0, 1]

def halfImm : BitVec 12 := scattered 12 half 5 [1]

def imm6 : BitVec 6 := scattered 6 half 12 [5] ||| scattered 6 half 6 [4, 3, 2, 1, 0]

def sp16Imm : BitVec 10 := scattered 10 half 12 [9] ||| scattered 10 half 6 [4, 6, 8, 7, 5]

def jumpImm : BitVec 12 := scattered 12 half 12 [11, 4, 9, 8, 10, 6, 7, 3, 2, 1, 5]

def branchImm : BitVec 9 :=
  scattered 9 half 12 [8, 4, 3] ||| scattered 9 half 6 [7, 6, 2, 1, 5]

def doubleSpLoadImm : BitVec 12 :=
  scattered 12 half 12 [5] ||| scattered 12 half 6 [4, 3, 8, 7, 6]

def wordSpLoadImm : BitVec 12 :=
  scattered 12 half 12 [5] ||| scattered 12 half 6 [4, 3, 2, 7, 6]

def doubleSpStoreImm : BitVec 12 := scattered 12 half 12 [5, 4, 3, 8, 7, 6]

def wordSpStoreImm : BitVec 12 := scattered 12 half 12 [5, 4, 3, 2, 7, 6]

/-- The byte and halfword loads and stores of Zcb. -/
def expandZcb : Option (BitVec 32) :=
  match (half.extractLsb' 10 3).toNat with
  | 0 => some (iType (byteImm half) (creg half 7) 4 (creg half 2) 0x03)
  | 1 => some (iType (halfImm half) (creg half 7) (if half.getLsbD 6 then 1 else 5)
      (creg half 2) 0x03)
  | 2 => some (sType (byteImm half) (creg half 2) (creg half 7) 0 0x23)
  | 3 => if half.getLsbD 6 then none
      else some (sType (halfImm half) (creg half 2) (creg half 7) 1 0x23)
  | _ => none

def expand0 : Option (BitVec 32) :=
  match funct3 half with
  | 0 => if spnImm half = 0 then none else some (iType (spnImm half) 2 0 (creg half 2) 0x13)
  | 1 => some (iType (doubleImm half) (creg half 7) 3 (creg half 2) 0x07)
  | 2 => some (iType (wordImm half) (creg half 7) 2 (creg half 2) 0x03)
  | 3 => some (iType (doubleImm half) (creg half 7) 3 (creg half 2) 0x03)
  | 4 => expandZcb half
  | 5 => some (sType (doubleImm half) (creg half 2) (creg half 7) 3 0x27)
  | 6 => some (sType (wordImm half) (creg half 2) (creg half 7) 2 0x23)
  | _ => some (sType (doubleImm half) (creg half 2) (creg half 7) 3 0x23)

/-- The instructions of Zcb on one register. -/
def expandUnary : Option (BitVec 32) :=
  match (half.extractLsb' 2 3).toNat with
  | 0 => some (iType 0xff (creg half 7) 7 (creg half 7) 0x13)
  | 1 => some (iType 0x604 (creg half 7) 1 (creg half 7) 0x13)
  | 2 => some (rType 4 0 (creg half 7) 4 (creg half 7) 0x3b)
  | 3 => some (iType 0x605 (creg half 7) 1 (creg half 7) 0x13)
  | 4 => some (rType 4 0 (creg half 7) 0 (creg half 7) 0x3b)
  | 5 => some (iType (-1) (creg half 7) 4 (creg half 7) 0x13)
  | _ => none

def expandArith : Option (BitVec 32) :=
  let word (funct7 : BitVec 7) := some (rType funct7 (creg half 2) (creg half 7) 0
    (creg half 7) 0x3b)
  let double (funct7 : BitVec 7) (funct3 : BitVec 3) := some (rType funct7 (creg half 2)
    (creg half 7) funct3 (creg half 7) 0x33)
  match half.getLsbD 12, (half.extractLsb' 5 2).toNat with
  | false, 0 => double 0x20 0
  | false, 1 => double 0 4
  | false, 2 => double 0 6
  | false, _ => double 0 7
  | true, 0 => word 0x20
  | true, 1 => word 0
  | true, 2 => double 1 0
  | true, _ => expandUnary half

/-- `c.lui`, `c.addi16sp` and `c.mop.n`, which does nothing. -/
def expandLui : Option (BitVec 32) :=
  if rd half = 2 then
    if sp16Imm half = 0 then none else some (iType ((sp16Imm half).signExtend 12) 2 0 2 0x13)
  else if imm6 half ≠ 0 then some (uType ((imm6 half).signExtend 20) (rd half) 0x37)
  else if (rd half).getLsbD 0 ∧ (rd half).getLsbD 4 = false then some (iType 0 0 0 0 0x13)
  else none

def expand1 : Option (BitVec 32) :=
  match funct3 half with
  | 0 => some (iType ((imm6 half).signExtend 12) (rd half) 0 (rd half) 0x13)
  | 1 => if rd half = 0 then none
      else some (iType ((imm6 half).signExtend 12) (rd half) 0 (rd half) 0x1b)
  | 2 => some (iType ((imm6 half).signExtend 12) 0 0 (rd half) 0x13)
  | 3 => expandLui half
  | 4 =>
    match (half.extractLsb' 10 2).toNat with
    | 0 => some (iType ((imm6 half).setWidth 12) (creg half 7) 5 (creg half 7) 0x13)
    | 1 => some (iType ((imm6 half).setWidth 12 ||| 0x400) (creg half 7) 5 (creg half 7) 0x13)
    | 2 => some (iType ((imm6 half).signExtend 12) (creg half 7) 7 (creg half 7) 0x13)
    | _ => expandArith half
  | 5 => some (jType ((jumpImm half).signExtend 21) 0 0x6f)
  | 6 => some (bType ((branchImm half).signExtend 13) 0 (creg half 7) 0 0x63)
  | _ => some (bType ((branchImm half).signExtend 13) 0 (creg half 7) 1 0x63)

/-- The jumps, the moves and `c.ebreak`. -/
def expandJump : Option (BitVec 32) :=
  if half.getLsbD 12 then
    if rs2 half = 0 then
      if rd half = 0 then some (iType 1 0 0 0 0x73) else some (iType 0 (rd half) 0 1 0x67)
    else some (rType 0 (rs2 half) (rd half) 0 (rd half) 0x33)
  else if rs2 half = 0 then
    if rd half = 0 then none else some (iType 0 (rd half) 0 0 0x67)
  else some (rType 0 (rs2 half) 0 0 (rd half) 0x33)

def expand2 : Option (BitVec 32) :=
  match funct3 half with
  | 0 => some (iType ((imm6 half).setWidth 12) (rd half) 1 (rd half) 0x13)
  | 1 => some (iType (doubleSpLoadImm half) 2 3 (rd half) 0x07)
  | 2 => if rd half = 0 then none else some (iType (wordSpLoadImm half) 2 2 (rd half) 0x03)
  | 3 => if rd half = 0 then none else some (iType (doubleSpLoadImm half) 2 3 (rd half) 0x03)
  | 4 => expandJump half
  | 5 => some (sType (doubleSpStoreImm half) (rs2 half) 2 3 0x27)
  | 6 => some (sType (wordSpStoreImm half) (rs2 half) 2 2 0x23)
  | _ => some (sType (doubleSpStoreImm half) (rs2 half) 2 3 0x23)

/-- The 32-bit instruction that a 16-bit encoding stands for, unless it is reserved. -/
def expand : Option (BitVec 32) :=
  match (half.extractLsb' 0 2).toNat with
  | 0 => expand0 half
  | 1 => expand1 half
  | 2 => expand2 half
  | _ => none

end

/-- The register that an instruction links to. -/
def linkReg (insn : BitVec 32) : BitVec 5 :=
  if opcodeOf insn = 0x6f ∨ opcodeOf insn = 0x67 then rdOf insn else 0

/-! ## Fields -/

section

variable (insn : BitVec 32)

theorem reg3_eq (pos : Nat) (hpos : pos + 3 ≤ 16) :
    Compressed.reg3 insn pos = creg (insn.setWidth 16) pos := by
  ext i hi
  interval_cases i <;> simp [Compressed.reg3, creg] <;> omega

theorem rdOf_eq : rdOf insn = rd (insn.setWidth 16) := by
  ext i hi
  interval_cases i <;> simp [rdOf, rd]

theorem rs2Field_eq : Compressed.rs2Field insn = rs2 (insn.setWidth 16) := by
  ext i hi
  interval_cases i <;> simp [Compressed.rs2Field, rs2]

theorem toNat_shift_and {mask : BitVec 32} {pos n : Nat} (hmask : mask.toNat = 2 ^ n - 1)
    (hpos : pos + n ≤ 16) :
    (insn >>> pos &&& mask).toNat = ((insn.setWidth 16).extractLsb' pos n).toNat := by
  have hfield : (insn.setWidth 16).extractLsb' pos n = insn.extractLsb' pos n := by
    ext i hi
    simp
    omega
  rw [hfield, BitVec.toNat_and, hmask, Nat.and_two_pow_sub_one_eq_mod, BitVec.toNat_ushiftRight,
    BitVec.extractLsb'_toNat]

theorem funct3Of_compressed : Compressed.funct3Of insn = funct3 (insn.setWidth 16) :=
  toNat_shift_and insn (n := 3) rfl (by decide)

/-! ## Immediates -/

theorem getElem_mask {dst last j : Nat} (hj : j < 32) (hdst : dst ≤ last) :
    ((((1 <<< (last - dst + 1)) - 1) <<< dst : Nat) : BitVec 32)[j] =
      decide (dst ≤ j ∧ j ≤ last) := by
  rw [BitVec.natCast_eq_ofNat, ← BitVec.getLsbD_eq_getElem, BitVec.getLsbD_ofNat,
    Nat.testBit_shiftLeft, Nat.one_shiftLeft, Nat.testBit_two_pow_sub_one, ← Bool.decide_and,
    ← Bool.decide_and]
  exact decide_eq_decide.mpr (by omega)

/-- `get_field1` moves bits `src` and up to bits `dst` to `last`. -/
@[simp] theorem getElem_getField1 (val : BitVec 32) {src dst last i : Nat}
    (hdst : dst ≤ last) (hi : i < 32) : (getField1 val src dst last)[i] =
      (decide (dst ≤ i ∧ i ≤ last) && val.getLsbD (i + src - dst)) := by
  unfold getField1
  dsimp only
  rw [Bool.and_comm]
  by_cases h : dst ≥ src
  · rw [if_pos h, BitVec.getElem_and, getElem_mask hi hdst, BitVec.getElem_shiftLeft]
    by_cases hin : dst ≤ i ∧ i ≤ last
    · have hbit : i + src - dst = i - (dst - src) := by omega
      have hge : ¬ i < dst - src := by omega
      rw [hbit, BitVec.getLsbD_eq_getElem (by omega)]
      simp [hge]
    · simp only [decide_eq_false hin, Bool.and_false]
  · rw [if_neg h, BitVec.getElem_and, getElem_mask hi hdst, BitVec.getElem_ushiftRight]
    by_cases hin : dst ≤ i ∧ i ≤ last
    · have hbit : i + src - dst = src - dst + i := by omega
      rw [hbit]
    · simp only [decide_eq_false hin, Bool.and_false]

theorem immAddi4spn_eq :
    Compressed.immAddi4spn insn = (spnImm (insn.setWidth 16)).signExtend 32 := by
  ext i hi
  interval_cases i <;>
    simp [Compressed.immAddi4spn, spnImm, BitVec.getElem_signExtend,
      BitVec.msb_eq_getLsbD_last]

theorem immD_eq :
    Compressed.immD insn = (doubleImm (insn.setWidth 16)).signExtend 32 := by
  ext i hi
  interval_cases i <;>
    simp [Compressed.immD, doubleImm, BitVec.getElem_signExtend,
      BitVec.msb_eq_getLsbD_last]

theorem immW_eq :
    Compressed.immW insn = (wordImm (insn.setWidth 16)).signExtend 32 := by
  ext i hi
  interval_cases i <;>
    simp [Compressed.immW, wordImm, BitVec.getElem_signExtend,
      BitVec.msb_eq_getLsbD_last]

theorem immB_eq :
    Compressed.immB insn = (byteImm (insn.setWidth 16)).signExtend 32 := by
  ext i hi
  interval_cases i <;>
    simp [Compressed.immB, byteImm, BitVec.getElem_signExtend,
      BitVec.msb_eq_getLsbD_last]

theorem half_eq :
    getField1 insn 5 1 1 = (halfImm (insn.setWidth 16)).signExtend 32 := by
  ext i hi
  interval_cases i <;>
    simp [halfImm, BitVec.getElem_signExtend, BitVec.msb_eq_getLsbD_last]

theorem imm6_eq : Compressed.imm6 insn = (imm6 (insn.setWidth 16)).setWidth 32 := by
  ext i hi
  interval_cases i <;> simp [Compressed.imm6, imm6]

theorem sext_imm6_eq :
    sext (Compressed.imm6 insn) 6 = (imm6 (insn.setWidth 16)).signExtend 32 := by
  rw [sext_eq _ (show 5 < 32 by decide), imm6_eq]
  simp

theorem immAddi16sp_eq :
    Compressed.immAddi16sp insn = (sp16Imm (insn.setWidth 16)).signExtend 32 := by
  rw [Compressed.immAddi16sp, sext_eq _ (show 9 < 32 by decide)]
  congr 1
  ext i hi
  interval_cases i <;> simp [sp16Imm]

theorem immLui_eq :
    Compressed.immLui insn = field ((imm6 (insn.setWidth 16)).signExtend 20) 12 := by
  rw [Compressed.immLui, sext_eq _ (show 17 < 32 by decide)]
  ext i hi
  interval_cases i <;>
    simp [imm6, BitVec.getElem_signExtend, BitVec.msb_eq_getLsbD_last]

theorem immJ_eq : Compressed.immJ insn = (jumpImm (insn.setWidth 16)).signExtend 32 := by
  rw [Compressed.immJ, sext_eq _ (show 11 < 32 by decide)]
  congr 1
  ext i hi
  interval_cases i <;> simp [jumpImm]

theorem immBranch_eq :
    Compressed.immBranch insn = (branchImm (insn.setWidth 16)).signExtend 32 := by
  rw [Compressed.immBranch, sext_eq _ (show 8 < 32 by decide)]
  congr 1
  ext i hi
  interval_cases i <;> simp [branchImm]

theorem jump_even (half : BitVec 16) : ((jumpImm half).signExtend 21).getLsbD 0 = false := by
  rw [BitVec.getLsbD_signExtend]
  simp [jumpImm]

theorem branch_even (half : BitVec 16) : ((branchImm half).signExtend 13).getLsbD 0 = false := by
  rw [BitVec.getLsbD_signExtend]
  simp [branchImm]

theorem immLdsp_eq :
    Compressed.immLdsp insn = (doubleSpLoadImm (insn.setWidth 16)).signExtend 32 := by
  ext i hi
  interval_cases i <;>
    simp [Compressed.immLdsp, doubleSpLoadImm, Compressed.rs2Field, BitVec.getElem_signExtend,
      BitVec.msb_eq_getLsbD_last]

theorem immLwsp_eq :
    Compressed.immLwsp insn = (wordSpLoadImm (insn.setWidth 16)).signExtend 32 := by
  ext i hi
  interval_cases i <;>
    simp [Compressed.immLwsp, wordSpLoadImm, Compressed.rs2Field, BitVec.getElem_signExtend,
      BitVec.msb_eq_getLsbD_last]

theorem immSdsp_eq :
    Compressed.immSdsp insn = (doubleSpStoreImm (insn.setWidth 16)).signExtend 32 := by
  ext i hi
  interval_cases i <;>
    simp [Compressed.immSdsp, doubleSpStoreImm, BitVec.getElem_signExtend,
      BitVec.msb_eq_getLsbD_last]

theorem immSwsp_eq :
    Compressed.immSwsp insn = (wordSpStoreImm (insn.setWidth 16)).signExtend 32 := by
  ext i hi
  interval_cases i <;>
    simp [Compressed.immSwsp, wordSpStoreImm, BitVec.getElem_signExtend,
      BitVec.msb_eq_getLsbD_last]

theorem shamt_eq :
    getField1 insn 12 5 5 ||| (Compressed.rs2Field insn).setWidth 32 =
      (imm6 (insn.setWidth 16)).setWidth 32 := by
  ext i hi
  interval_cases i <;> simp [Compressed.rs2Field, imm6]

end

end Expansion
end Cpu
end Riscbox

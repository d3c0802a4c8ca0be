import Riscbox.Cpu.Execute

/-!
# The 16-bit instructions
-/

namespace Riscbox
namespace Cpu

variable {t : Target} {π : Type}

def getField1 (val : BitVec 32) (srcPos dstPos dstPosMax : Nat) : BitVec 32 :=
  let mask : BitVec 32 := ((1 <<< (dstPosMax - dstPos + 1)) - 1) <<< dstPos
  if dstPos ≥ srcPos then (val <<< (dstPos - srcPos)) &&& mask
  else (val >>> (srcPos - dstPos)) &&& mask

namespace Compressed

/-- The register of a 3-bit field. -/
def reg3 (insn : BitVec 32) (pos : Nat) : BitVec 5 := (insn >>> pos &&& 7 ||| 8).setWidth 5

/-- `(insn >> 2) & 0x1f`. -/
def rs2Field (insn : BitVec 32) : BitVec 5 := insn.extractLsb' 2 5

def funct3Of (insn : BitVec 32) : Nat := (insn >>> 13 &&& 7).toNat

/-! ## Immediates -/

def immAddi4spn (insn : BitVec 32) : BitVec 32 :=
  getField1 insn 11 4 5 ||| getField1 insn 7 6 9 ||| getField1 insn 6 2 2 ||| getField1 insn 5 3 3

/-- The offset of the doubleword loads and stores. -/
def immD (insn : BitVec 32) : BitVec 32 := getField1 insn 10 3 5 ||| getField1 insn 5 6 7

/-- The offset of the word loads and stores. -/
def immW (insn : BitVec 32) : BitVec 32 :=
  getField1 insn 10 3 5 ||| getField1 insn 6 2 2 ||| getField1 insn 5 6 6

def immB (insn : BitVec 32) : BitVec 32 := getField1 insn 6 0 0 ||| getField1 insn 5 1 1

def imm6 (insn : BitVec 32) : BitVec 32 := getField1 insn 12 5 5 ||| getField1 insn 2 0 4

def immAddi16sp (insn : BitVec 32) : BitVec 32 :=
  sext (getField1 insn 12 9 9 ||| getField1 insn 6 4 4 ||| getField1 insn 5 6 6 |||
    getField1 insn 3 7 8 ||| getField1 insn 2 5 5) 10

def immLui (insn : BitVec 32) : BitVec 32 :=
  sext (getField1 insn 12 17 17 ||| getField1 insn 2 12 16) 18

def immJ (insn : BitVec 32) : BitVec 32 :=
  sext (getField1 insn 12 11 11 ||| getField1 insn 11 4 4 ||| getField1 insn 9 8 9 |||
    getField1 insn 8 10 10 ||| getField1 insn 7 6 6 ||| getField1 insn 6 7 7 |||
    getField1 insn 3 1 3 ||| getField1 insn 2 5 5) 12

def immBranch (insn : BitVec 32) : BitVec 32 :=
  sext (getField1 insn 12 8 8 ||| getField1 insn 10 3 4 ||| getField1 insn 5 6 7 |||
    getField1 insn 3 1 2 ||| getField1 insn 2 5 5) 9

/-- The offset of the doubleword loads from the stack. -/
def immLdsp (insn : BitVec 32) : BitVec 32 :=
  getField1 insn 12 5 5 ||| ((rs2Field insn).setWidth 32 &&& 3 <<< 3) ||| getField1 insn 2 6 8

def immLwsp (insn : BitVec 32) : BitVec 32 :=
  getField1 insn 12 5 5 ||| ((rs2Field insn).setWidth 32 &&& 7 <<< 2) ||| getField1 insn 2 6 7

def immSdsp (insn : BitVec 32) : BitVec 32 := getField1 insn 10 3 5 ||| getField1 insn 7 6 8

def immSwsp (insn : BitVec 32) : BitVec 32 := getField1 insn 9 2 5 ||| getField1 insn 7 6 7

end Compressed

namespace Exec

open Compressed (reg3 rs2Field)

/-- `C_NEXT_INSN`. -/
def cNext : Exec t π Flow := return .next 2

/-- A load into an integer register. -/
def cLoad (env : Env t π) (sz : Size) (extend : BitVec 64 → BitVec 64) (rd rs1 : BitVec 5)
    (offset : BitVec 32) : Exec t π Flow := do
  let base ← getReg rs1
  let rval ← targetRead env sz (base + offset.signExtend 64)
  setReg rd (extend rval)
  cNext

def cStore (env : Env t π) (sz : Size) (rs1 rs2 : BitVec 5) (offset : BitVec 32) :
    Exec t π Flow := do
  let base ← getReg rs1
  let val ← getReg rs2
  storeInsn env sz (base + offset.signExtend 64) val 2
  cNext

def cFld (env : Env t π) (rd rs1 : BitVec 5) (offset : BitVec 32) : Exec t π Flow := do
  let fs ← read fun s => s.fs
  if fs = 0 then illegal
  else
    let base ← getReg rs1
    let rval ← targetRead env .u64 (base + offset.signExtend 64)
    update fun s => { s with fpReg := Function.update s.fpReg rd rval, fs := 3 }
    cNext

def cFsd (env : Env t π) (rs1 rs2 : BitVec 5) (offset : BitVec 32) : Exec t π Flow := do
  let fs ← read fun s => s.fs
  if fs = 0 then illegal
  else
    let base ← getReg rs1
    let val ← read fun s => s.fpReg rs2
    storeInsn env .u64 (base + offset.signExtend 64) val 2
    cNext

/-- The byte and halfword loads and stores. -/
def quadrant0Zcb (env : Env t π) (insn : BitVec 32) (rd : BitVec 5) : Exec t π Flow :=
  let rs1 := reg3 insn 7
  let half := getField1 insn 5 1 1
  match (insn >>> 10 &&& 7).toNat with
  | 0 => cLoad env .u8 id rd rs1 (Compressed.immB insn)
  | 1 =>
    if insn &&& 1 <<< 6 ≠ 0 then
      cLoad env .u16 (fun val => (val.setWidth 16).signExtend 64) rd rs1 half
    else cLoad env .u16 id rd rs1 half
  | 2 => cStore env .u8 rs1 rd (Compressed.immB insn)
  | 3 => if insn &&& 1 <<< 6 ≠ 0 then illegal else cStore env .u16 rs1 rd half
  | _ => illegal

def quadrant0 (env : Env t π) (insn : BitVec 32) : Exec t π Flow :=
  let rd := reg3 insn 2
  let rs1 := reg3 insn 7
  match Compressed.funct3Of insn with
  | 0 => do
    let imm := Compressed.immAddi4spn insn
    if imm = 0 then illegal
    else
      let sp ← getReg 2
      setReg rd (sp + imm.signExtend 64)
      cNext
  | 1 => cFld env rd rs1 (Compressed.immD insn)
  | 2 => cLoad env .u32 sextWord rd rs1 (Compressed.immW insn)
  | 3 => cLoad env .u64 id rd rs1 (Compressed.immD insn)
  | 4 => quadrant0Zcb env insn rd
  | 5 => cFsd env rs1 rd (Compressed.immD insn)
  | 6 => cStore env .u32 rs1 rd (Compressed.immW insn)
  | _ => cStore env .u64 rs1 rd (Compressed.immD insn)

/-- An instruction that computes a register from itself. -/
def cUnary (rd : BitVec 5) (f : BitVec 64 → BitVec 64) : Exec t π Flow := do
  let val ← getReg rd
  setReg rd (f val)
  cNext

def cBinary (rd rs2 : BitVec 5) (f : BitVec 64 → BitVec 64 → BitVec 64) : Exec t π Flow := do
  let val ← getReg rd
  let val2 ← getReg rs2
  setReg rd (f val val2)
  cNext

def zcbUnary (insn : BitVec 32) (rd : BitVec 5) : Exec t π Flow :=
  match (insn >>> 2 &&& 7).toNat with
  | 0 => cUnary rd fun val => (val.setWidth 8).setWidth 64
  | 1 => cUnary rd fun val => (val.setWidth 8).signExtend 64
  | 2 => cUnary rd fun val => (val.setWidth 16).setWidth 64
  | 3 => cUnary rd fun val => (val.setWidth 16).signExtend 64
  | 4 => cUnary rd zextWord
  | 5 => cUnary rd fun val => ~~~val
  | _ => illegal

/-- The register-register arithmetic of quadrant 1. -/
def quadrant1Arith (insn : BitVec 32) (rd : BitVec 5) : Exec t π Flow :=
  let rs2 := reg3 insn 2
  match ((insn >>> 5 &&& 3) ||| (insn >>> 10 &&& 4)).toNat with
  | 0 => cBinary rd rs2 fun val val2 => val - val2
  | 1 => cBinary rd rs2 fun val val2 => val ^^^ val2
  | 2 => cBinary rd rs2 fun val val2 => val ||| val2
  | 3 => cBinary rd rs2 fun val val2 => val &&& val2
  | 4 => cBinary rd rs2 fun val val2 => sextWord (val - val2)
  | 5 => cBinary rd rs2 fun val val2 => sextWord (val + val2)
  | 6 => cBinary rd rs2 fun val val2 => val * val2
  | _ => zcbUnary insn rd

def cBranch (insn : BitVec 32) (taken : BitVec 64 → Bool) : Exec t π Flow := do
  let val ← getReg (reg3 insn 7)
  if taken val then
    let pc ← getPc
    jumpTo (pc + (Compressed.immBranch insn).signExtend 64)
  else cNext

def quadrant1 (insn : BitVec 32) : Exec t π Flow :=
  let rd := rdOf insn
  let imm := Compressed.imm6 insn
  let simm := sext imm 6
  match Compressed.funct3Of insn with
  | 0 => cUnary rd fun val => val + simm.signExtend 64
  | 1 => cUnary rd fun val => sextWord (val + simm.signExtend 64)
  | 2 => cUnary rd fun _ => simm.signExtend 64
  | 3 =>
    if rd = 2 then
      if Compressed.immAddi16sp insn = 0 then illegal
      else cUnary 2 fun val => val + (Compressed.immAddi16sp insn).signExtend 64
    else if rd ≠ 0 then
      if Compressed.immLui insn = 0 then
        if rd &&& 1 = 0 ∨ rd > 15 then illegal else cNext
      else cUnary rd fun _ => (Compressed.immLui insn).signExtend 64
    else cNext
  | 4 =>
    let rd := reg3 insn 7
    match (insn >>> 10 &&& 3).toNat with
    | 0 => cUnary rd fun val => val >>> imm.toNat
    | 1 => cUnary rd fun val => val.sshiftRight imm.toNat
    | 2 => cUnary rd fun val => val &&& simm.signExtend 64
    | _ => quadrant1Arith insn rd
  | 5 => do
    let pc ← getPc
    jumpTo (pc + (Compressed.immJ insn).signExtend 64)
  | 6 => cBranch insn fun val => val = 0
  | _ => cBranch insn fun val => val ≠ 0

/-- The jumps and moves of quadrant 2. -/
def quadrant2Jump (insn : BitVec 32) : Exec t π Flow := do
  let rd := rdOf insn
  let rs2 := rs2Field insn
  let target ← getReg rd
  if insn >>> 12 &&& 1 = 0 then
    if rs2 = 0 then
      if rd = 0 then illegal else jumpTo (target &&& ~~~1)
    else
      let val ← getReg rs2
      setReg rd val
      cNext
  else if rs2 = 0 then
    if rd = 0 then raise causeBreakpoint
    else
      let pc ← getPc
      setReg 1 (pc + 2)
      jumpTo (target &&& ~~~1)
  else cBinary rd rs2 fun val val2 => val + val2

def quadrant2 (env : Env t π) (insn : BitVec 32) : Exec t π Flow :=
  let rd := rdOf insn
  let rs2 := rs2Field insn
  match Compressed.funct3Of insn with
  | 0 => cUnary rd fun val => val <<< (getField1 insn 12 5 5 ||| rs2.setWidth 32).toNat
  | 1 => cFld env rd 2 (Compressed.immLdsp insn)
  | 2 => cLoad env .u32 sextWord rd 2 (Compressed.immLwsp insn)
  | 3 => cLoad env .u64 id rd 2 (Compressed.immLdsp insn)
  | 4 => quadrant2Jump insn
  | 5 => cFsd env 2 rs2 (Compressed.immSdsp insn)
  | 6 => cStore env .u32 2 rs2 (Compressed.immSwsp insn)
  | _ => cStore env .u64 2 rs2 (Compressed.immSdsp insn)

/-- One instruction; the low bits of its word give its length. -/
def exec (env : Env t π) (insn : BitVec 32) : Exec t π Flow :=
  match (insn &&& 3).toNat with
  | 0 => quadrant0 env insn
  | 1 => quadrant1 insn
  | 2 => quadrant2 env insn
  | _ => exec32 env insn

end Exec

end Cpu
end Riscbox

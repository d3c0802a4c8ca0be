import Riscbox.Cpu.Execute
import Riscbox.SoftFloat.Comparisons
import Riscbox.SoftFloat.Conversions
import Riscbox.SoftFloat.Fused
import Riscbox.SoftFloat.IntegerConversions
import Riscbox.SoftFloat.Root

/-!
# The floating-point instructions

Opcodes `0x43` to `0x53` over the soft floating point.  A register holds a single in its lower
word under an upper word of ones; any other register is read as a NaN by the single
instructions.
-/

namespace Riscbox
namespace Cpu
namespace Fpu

open SoftFloat

abbrev FpRegisters := BitVec 5 → BitVec 64

/-- The parts of the core that the instructions read and write. -/
structure State where
  reg : Registers
  fpReg : FpRegisters
  frm : BitVec 8
  fflags : BitVec 32

/-- The registers and the flags after an instruction, and whether it sets `fs`. -/
abbrev Done := Registers × FpRegisters × BitVec 32 × Bool

/-- `F_SIZE`. -/
inductive FSize
  | f32
  | f64
  deriving DecidableEq, Repr

namespace FSize

def format : FSize → Format
  | f32 => sf32
  | f64 => sf64

/-- `F_HIGH`. -/
def high : FSize → BitVec 64
  | f32 => 0xffffffff00000000
  | f64 => 0

/-- `FSIGN_MASK` where it meets a register: that of the singles is a signed constant, which is
extended into the upper word. -/
def signMask : FSize → BitVec 64
  | f32 => 0xffffffff80000000
  | f64 => 0x8000000000000000

/-- `OPID`. -/
def ofOpid : BitVec 2 → Option FSize
  | 0 => some f32
  | 1 => some f64
  | _ => none

end FSize

def f32High : BitVec 64 := 0xffffffff00000000

/-- `F_READ` and `READ_FP32`. -/
def fRead (z : FSize) (fpReg : FpRegisters) (i : BitVec 5) : BitVec 64 :=
  match z with
  | .f32 => if fpReg i &&& f32High = f32High then fpReg i else 0x7fc00000
  | .f64 => fpReg i

/-- An argument of type `F_UINT`. -/
def operand (z : FSize) (val : BitVec 64) : z.format.Word := val.setWidth _

/-- `get_insn_rm`. -/
def getInsnRm (s : State) (rm : Nat) : Option RoundingMode :=
  match if rm = 7 then s.frm.toNat else rm with
  | 0 => some .rne
  | 1 => some .rtz
  | 2 => some .rdn
  | 3 => some .rup
  | 4 => some .rmm
  | _ => none

/-- A number of the format as a register. -/
def boxed (z : FSize) (a : z.format.Word) : BitVec 64 := a.setWidth 64 ||| z.high

def setF (s : State) (rd : BitVec 5) (z : FSize) (r : z.format.Result) : Option Done :=
  some (s.reg, Function.update s.fpReg rd (boxed z r.1), r.2, true)

def setX (s : State) (rd : BitVec 5) (val : BitVec 64) (fflags : BitVec 32) (dirty : Bool) :
    Option Done :=
  some (s.reg.set rd val, s.fpReg, fflags, dirty)

def boolVal (b : Bool) : BitVec 64 := (BitVec.ofBool b).setWidth 64

/-- `fsgnj`, `fsgnjn` and `fsgnjx`, on whole registers. -/
def signInject (z : FSize) (rm : Nat) (val val2 : BitVec 64) : Option (BitVec 64) :=
  match rm with
  | 0 => some (val &&& ~~~z.signMask ||| val2 &&& z.signMask)
  | 1 => some (val &&& ~~~z.signMask ||| (val2 &&& z.signMask ^^^ z.signMask))
  | 2 => some (val ^^^ (val2 &&& z.signMask))
  | _ => none

/-- `fcvt` to an integer register. -/
def toInteger (z : FSize) (rs2 : Nat) (a : z.format.Word) (rm : RoundingMode)
    (fflags : BitVec 32) : Option (BitVec 64 × BitVec 32) :=
  match rs2 with
  | 0 =>
    let r := internalCvtSfI .i32 a rm fflags false
    some (r.1.signExtend 64, r.2)
  | 1 =>
    let r := internalCvtSfI .i32 a rm fflags true
    some (r.1.signExtend 64, r.2)
  | 2 => some (internalCvtSfI .i64 a rm fflags false)
  | 3 => some (internalCvtSfI .i64 a rm fflags true)
  | _ => none

/-- `fcvt` from an integer register. -/
def ofInteger (z : FSize) (rs2 : Nat) (val : BitVec 64) (rm : RoundingMode) (fflags : BitVec 32) :
    Option z.format.Result :=
  match rs2 with
  | 0 => some (internalCvtISf .i32 z.format (val.setWidth 32) rm fflags false)
  | 1 => some (internalCvtISf .i32 z.format (val.setWidth 32) rm fflags true)
  | 2 => some (internalCvtISf .i64 z.format val rm fflags false)
  | 3 => some (internalCvtISf .i64 z.format val rm fflags true)
  | _ => none

/-- The comparisons of `fle`, `flt` and `feq`. -/
def compare (z : FSize) (rm : Nat) (a b : z.format.Word) (fflags : BitVec 32) :
    Option (Bool × BitVec 32) :=
  match rm with
  | 0 => some (leSf a b fflags)
  | 1 => some (ltSf a b fflags)
  | 2 => some (eqQuietSf a b fflags)
  | _ => none

/-- `fcvt` between the formats, of which `z` is that of the result. -/
def convert (z : FSize) (s : State) (rs1 : BitVec 5) (rs2 : Nat) (rm : RoundingMode) :
    Option z.format.Result :=
  match z, rs2 with
  | .f32, 1 => some (cvtSf64Sf32 (s.fpReg rs1) rm s.fflags)
  | .f64, 0 => some (cvtSf32Sf64 (operand .f32 (fRead .f32 s.fpReg rs1)) s.fflags)
  | _, _ => none

/-- The instructions of `riscv_cpu_fp_template.h`, of which the upper bits of `imm` select. -/
def fpOp (z : FSize) (funct5 rm : Nat) (rd rs1 rs2 : BitVec 5) (s : State) : Option Done := do
  let val := fRead z s.fpReg rs1
  let val2 := fRead z s.fpReg rs2
  let a := operand z val
  let b := operand z val2
  match funct5 with
  | 0x00 => setF s rd z (addSf a b (← getInsnRm s rm) s.fflags)
  | 0x01 => setF s rd z (subSf a b (← getInsnRm s rm) s.fflags)
  | 0x02 => setF s rd z (mulSf a b (← getInsnRm s rm) s.fflags)
  | 0x03 => setF s rd z (divSf a b (← getInsnRm s rm) s.fflags)
  | 0x0b =>
    let rm ← getInsnRm s rm
    if rs2 ≠ 0 then none else setF s rd z (sqrtSf a rm s.fflags)
  | 0x04 => some (s.reg, Function.update s.fpReg rd (← signInject z rm val val2), s.fflags, true)
  | 0x05 =>
    match rm with
    | 0 => setF s rd z (minSf a b s.fflags .ieee754_201X)
    | 1 => setF s rd z (maxSf a b s.fflags .ieee754_201X)
    | _ => none
  | 0x18 =>
    let (val, fflags) ← toInteger z rs2.toNat a (← getInsnRm s rm) s.fflags
    setX s rd val fflags true
  | 0x14 =>
    let (val, fflags) ← compare z rm a b s.fflags
    setX s rd (boolVal val) fflags true
  | 0x1a => setF s rd z (← ofInteger z rs2.toNat (s.reg.get rs1) (← getInsnRm s rm) s.fflags)
  | 0x08 => setF s rd z (← convert z s rs1 rs2.toNat (← getInsnRm s rm))
  | 0x1c =>
    if rs2 ≠ 0 then none
    else
      match rm with
      | 0 =>
        -- The upper word is not looked at.
        let word := s.fpReg rs1
        setX s rd (if z = .f32 then (word.setWidth 32).signExtend 64 else word) s.fflags false
      | 1 => setX s rd ((fclassSf a).setWidth 64) s.fflags false
      | _ => none
  | 0x1e =>
    if rs2 ≠ 0 ∨ rm ≠ 0 then none else setF s rd z (operand z (s.reg.get rs1), s.fflags)
  | _ => none

/-- `fmadd`, `fmsub`, `fnmsub` and `fnmadd`, of which `flip1` and `flip3` tell the flipped
signs. -/
def fpFma (z : FSize) (flip1 flip3 : Bool) (rm : Nat) (rd rs1 rs2 rs3 : BitVec 5) (s : State) :
    Option Done := do
  let flip (f : Bool) (val : BitVec 64) : BitVec 64 := if f then val ^^^ z.signMask else val
  let rm ← getInsnRm s rm
  let a := operand z (flip flip1 (fRead z s.fpReg rs1))
  let b := operand z (fRead z s.fpReg rs2)
  let c := operand z (flip flip3 (fRead z s.fpReg rs3))
  setF s rd z (fmaSf a b c rm s.fflags)

/-- The floating-point instructions but the loads and stores. -/
def step (insn : BitVec 32) (s : State) : Option Done := do
  let z ← FSize.ofOpid (insn.extractLsb' 25 2)
  let rm := funct3Of insn
  let rd := rdOf insn
  let rs1 := rs1Of insn
  let rs2 := rs2Of insn
  let rs3 : BitVec 5 := insn.extractLsb' 27 5
  match (insn &&& 0x7f).toNat with
  | 0x43 => fpFma z false false rm rd rs1 rs2 rs3 s
  | 0x47 => fpFma z false true rm rd rs1 rs2 rs3 s
  | 0x4b => fpFma z true false rm rd rs1 rs2 rs3 s
  | 0x4f => fpFma z true true rm rd rs1 rs2 rs3 s
  | 0x53 => fpOp z rs3.toNat rm rd rs1 rs2 s
  | _ => none

/-- The floating-point unit of the core's surroundings. -/
def fpu (insn : BitVec 32) (reg : Registers) (fpReg : FpRegisters) (frm : BitVec 8)
    (fflags : BitVec 32) : Option Done :=
  step insn ⟨reg, fpReg, frm, fflags⟩

end Fpu
end Cpu
end Riscbox

import Riscbox.Cpu.Access

/-!
# The 32-bit instructions
-/

namespace Riscbox
namespace Cpu

variable {t : Target} {π : Type}

/-- The low `n` bits of a value, sign-extended. -/
def sext (val : BitVec 32) (n : Nat) : BitVec 32 :=
  let signMask : BitVec 32 := 1 <<< (n - 1)
  (val &&& (signMask - 1)) - (val &&& signMask)

/-- `(int32_t)` of a register value, as a register value. -/
def sextWord (val : BitVec 64) : BitVec 64 := (val.setWidth 32).signExtend 64

def zextWord (val : BitVec 64) : BitVec 64 := (val.setWidth 32).setWidth 64

def boolValue (b : Bool) : BitVec 64 := if b then 1 else 0

/-! ## Instruction fields -/

def opcodeOf (insn : BitVec 32) : Nat := (insn &&& 0x7f).toNat
def rdOf (insn : BitVec 32) : BitVec 5 := insn.extractLsb' 7 5
def rs1Of (insn : BitVec 32) : BitVec 5 := insn.extractLsb' 15 5
def rs2Of (insn : BitVec 32) : BitVec 5 := insn.extractLsb' 20 5
def funct3Of (insn : BitVec 32) : Nat := (insn >>> 12 &&& 7).toNat

def immI (insn : BitVec 32) : BitVec 32 := insn.sshiftRight 20

def immS (insn : BitVec 32) : BitVec 32 :=
  sext ((rdOf insn).setWidth 32 ||| (insn >>> 20 &&& 0xfe0)) 12

def immB (insn : BitVec 32) : BitVec 32 :=
  sext ((insn >>> 19 &&& 1 <<< 12) ||| (insn >>> 20 &&& 0x7e0) ||| (insn >>> 7 &&& 0x1e) |||
    (insn <<< 4 &&& 1 <<< 11)) 13

def immU (insn : BitVec 32) : BitVec 32 := insn &&& 0xfffff000

def immJ (insn : BitVec 32) : BitVec 32 :=
  sext ((insn >>> 11 &&& 1 <<< 20) ||| (insn >>> 20 &&& 0x7fe) ||| (insn >>> 9 &&& 1 <<< 11) |||
    (insn &&& 0xff000)) 21

/-! ## Arithmetic -/

def div64 (a b : BitVec 64) : BitVec 64 :=
  if b = 0 then -1 else if a = 1 <<< 63 ∧ b = -1 then a else a.sdiv b

def divu64 (a b : BitVec 64) : BitVec 64 := if b = 0 then -1 else a / b

def rem64 (a b : BitVec 64) : BitVec 64 :=
  if b = 0 then a else if a = 1 <<< 63 ∧ b = -1 then 0 else a.srem b

def remu64 (a b : BitVec 64) : BitVec 64 := if b = 0 then a else a % b

def div32 (a b : BitVec 32) : BitVec 32 :=
  if b = 0 then -1 else if a = 1 <<< 31 ∧ b = -1 then a else a.sdiv b

def divu32 (a b : BitVec 32) : BitVec 32 := if b = 0 then -1 else a / b

def rem32 (a b : BitVec 32) : BitVec 32 :=
  if b = 0 then a else if a = 1 <<< 31 ∧ b = -1 then 0 else a.srem b

def remu32 (a b : BitVec 32) : BitVec 32 := if b = 0 then a else a % b

/-- The high half of a product, from limbs in the browser build. -/
def mulhu64 (t : Target) (a b : BitVec 64) : BitVec 64 :=
  match t with
  | .native64 => ((a.setWidth 128 * b.setWidth 128) >>> 64).setWidth 64
  | .wasm32 =>
    let a0 := zextWord a
    let a1 := a >>> 32
    let b0 := zextWord b
    let b1 := b >>> 32
    let low := a0 * b0
    let middle := a1 * b0 + low >>> 32
    let carry := middle >>> 32
    let middle := a0 * b1 + zextWord middle
    a1 * b1 + carry + middle >>> 32

def mulh64 (t : Target) (a b : BitVec 64) : BitVec 64 :=
  match t with
  | .native64 => ((a.signExtend 128 * b.signExtend 128) >>> 64).setWidth 64
  | .wasm32 =>
    let high := mulhu64 t a b
    let high := if a.msb then high - b else high
    if b.msb then high - a else high

def mulhsu64 (t : Target) (a b : BitVec 64) : BitVec 64 :=
  match t with
  | .native64 => ((a.signExtend 128 * b.setWidth 128) >>> 64).setWidth 64
  | .wasm32 =>
    let high := mulhu64 t a b
    if a.msb then high - b else high

/-- The byte of `val` at bit `shift`. -/
def byteAt (val : BitVec 64) (shift : Nat) : BitVec 64 := val >>> shift &&& 0xff

def orcB (val : BitVec 64) : BitVec 64 :=
  [0, 8, 16, 24, 32, 40, 48, 56].foldl (fun result shift =>
    if byteAt val shift ≠ 0 then result ||| 0xff <<< shift else result) 0

def rev8 (val : BitVec 64) : BitVec 64 :=
  [0, 8, 16, 24, 32, 40, 48, 56].foldl (fun result shift =>
    result ||| byteAt val shift <<< (56 - shift)) 0

/-- The value of a register-immediate instruction, unless it is illegal. -/
def opImm (funct3 : Nat) (imm : BitVec 32) (val : BitVec 64) : Option (BitVec 64) :=
  let shamt := (imm &&& 63).toNat
  let group := imm &&& ~~~63
  match funct3 with
  | 0 => some (val + imm.signExtend 64)
  | 1 =>
    if group = 0 then some (val <<< shamt)
    else if group = 0x480 then some (val &&& ~~~((1 : BitVec 64) <<< shamt))
    else if group = 0x680 then some (val ^^^ (1 : BitVec 64) <<< shamt)
    else if group = 0x280 then some (val ||| (1 : BitVec 64) <<< shamt)
    else if imm = 0x600 then some (if val = 0 then 64 else val.clz)
    else if imm = 0x601 then some (if val = 0 then 64 else val.ctz)
    else if imm = 0x602 then some val.cpop
    else if imm = 0x604 then some ((val.setWidth 8).signExtend 64)
    else if imm = 0x605 then some ((val.setWidth 16).signExtend 64)
    else none
  | 2 => some (boolValue (val.slt (imm.signExtend 64)))
  | 3 => some (boolValue (val.ult (imm.signExtend 64)))
  | 4 => some (val ^^^ imm.signExtend 64)
  | 5 =>
    if imm &&& ~~~(63 ||| 0x400) = 0 then
      some (if imm &&& 0x400 ≠ 0 then val.sshiftRight shamt else val >>> shamt)
    else if group = 0x600 then some (val >>> shamt ||| val <<< (-imm &&& 63).toNat)
    else if group = 0x480 then some (val >>> shamt &&& 1)
    else if imm = 0x287 then some (orcB val)
    else if imm = 0x6b8 then some (rev8 val)
    else none
  | 6 => some (val ||| imm.signExtend 64)
  | _ => some (val &&& imm.signExtend 64)

def opImm32 (funct3 : Nat) (imm : BitVec 32) (val : BitVec 64) : Option (BitVec 64) :=
  let word := val.setWidth 32
  let shamt := (imm &&& 31).toNat
  match funct3 with
  | 0 => some (sextWord (val + imm.signExtend 64))
  | 1 =>
    if imm &&& ~~~31 = 0 then some (sextWord (val <<< shamt))
    else if imm &&& ~~~63 = 0x80 then some (zextWord val <<< (imm &&& 63).toNat)
    else if imm = 0x600 then some (if word = 0 then 32 else word.clz.setWidth 64)
    else if imm = 0x601 then some (if word = 0 then 32 else word.ctz.setWidth 64)
    else if imm = 0x602 then some (word.cpop.setWidth 64)
    else none
  | 5 =>
    if imm &&& ~~~(31 ||| 0x400) = 0 then
      some (if imm &&& 0x400 ≠ 0 then (word.sshiftRight shamt).signExtend 64
        else (word >>> shamt).signExtend 64)
    else if imm &&& ~~~31 = 0x600 then
      some ((word >>> shamt ||| word <<< (-imm &&& 31).toNat).signExtend 64)
    else none
  | _ => none

def mulDiv (t : Target) (funct3 : Nat) (val val2 : BitVec 64) : Option (BitVec 64) :=
  match funct3 with
  | 0 => some (val * val2)
  | 1 => some (mulh64 t val val2)
  | 2 => some (mulhsu64 t val val2)
  | 3 => some (mulhu64 t val val2)
  | 4 => some (div64 val val2)
  | 5 => some (divu64 val val2)
  | 6 => some (rem64 val val2)
  | 7 => some (remu64 val val2)
  | _ => none

/-- The register-register instructions, of which `funct7` and `insn` bit 30 select. -/
def op (t : Target) (funct7 : BitVec 32) (funct3 : Nat) (val val2 : BitVec 64) :
    Option (BitVec 64) :=
  let shamt := (val2 &&& 63).toNat
  let unshamt := (-val2 &&& 63).toNat
  if funct7 = 1 then mulDiv t funct3 val val2
  else if funct7 &&& ~~~0x20 ≠ 0 then
    if funct7 = 5 then
      match funct3 with
      | 4 => some (if val.slt val2 then val else val2)
      | 5 => some (if val.ult val2 then val else val2)
      | 6 => some (if val2.slt val then val else val2)
      | 7 => some (if val2.ult val then val else val2)
      | _ => none
    else if funct7 = 0x14 ∧ funct3 = 1 then some (val ||| (1 : BitVec 64) <<< shamt)
    else if funct7 = 0x24 then
      match funct3 with
      | 1 => some (val &&& ~~~((1 : BitVec 64) <<< shamt))
      | 5 => some (val >>> shamt &&& 1)
      | _ => none
    else if funct7 = 0x34 ∧ funct3 = 1 then some (val ^^^ (1 : BitVec 64) <<< shamt)
    else if funct7 = 0x10 then
      if funct3 = 2 ∨ funct3 = 4 ∨ funct3 = 6 then some (val2 + val <<< (funct3 / 2)) else none
    else if funct7 = 0x30 then
      match funct3 with
      | 1 => some (val <<< shamt ||| val >>> unshamt)
      | 5 => some (val >>> shamt ||| val <<< unshamt)
      | _ => none
    else if funct7 = 7 then
      match funct3 with
      | 5 => some (if val2 = 0 then 0 else val)
      | 7 => some (if val2 ≠ 0 then 0 else val)
      | _ => none
    else none
  else
    match funct3, decide (funct7 &&& 0x20 ≠ 0) with
    | 0, false => some (val + val2)
    | 0, true => some (val - val2)
    | 1, false => some (val <<< shamt)
    | 2, false => some (boolValue (val.slt val2))
    | 3, false => some (boolValue (val.ult val2))
    | 4, false => some (val ^^^ val2)
    | 4, true => some (~~~(val ^^^ val2))
    | 5, false => some (val >>> shamt)
    | 5, true => some (val.sshiftRight shamt)
    | 6, false => some (val ||| val2)
    | 6, true => some (val ||| ~~~val2)
    | 7, false => some (val &&& val2)
    | 7, true => some (val &&& ~~~val2)
    | _, _ => none

def mulDiv32 (funct3 : Nat) (val val2 : BitVec 64) : Option (BitVec 64) :=
  let a := val.setWidth 32
  let b := val2.setWidth 32
  match funct3 with
  | 0 => some ((a * b).signExtend 64)
  | 4 => some ((div32 a b).signExtend 64)
  | 5 => some ((divu32 a b).signExtend 64)
  | 6 => some ((rem32 a b).signExtend 64)
  | 7 => some ((remu32 a b).signExtend 64)
  | _ => none

def op32 (funct7 : BitVec 32) (rs2 : BitVec 5) (funct3 : Nat) (val val2 : BitVec 64) :
    Option (BitVec 64) :=
  let word := val.setWidth 32
  let shamt := (val2 &&& 31).toNat
  let unshamt := (-val2 &&& 31).toNat
  if funct7 = 1 then mulDiv32 funct3 val val2
  else if funct7 &&& ~~~0x20 ≠ 0 then
    if funct7 = 4 ∧ funct3 = 0 then some (zextWord val + val2)
    else if funct7 = 4 ∧ funct3 = 4 ∧ rs2 = 0 then some ((val.setWidth 16).setWidth 64)
    else if funct7 = 0x10 ∧ (funct3 = 2 ∨ funct3 = 4 ∨ funct3 = 6) then
      some (val2 + zextWord val <<< (funct3 / 2))
    else if funct7 = 0x30 then
      match funct3 with
      | 1 => some ((word <<< shamt ||| word >>> unshamt).signExtend 64)
      | 5 => some ((word >>> shamt ||| word <<< unshamt).signExtend 64)
      | _ => none
    else none
  else
    match funct3, decide (funct7 &&& 0x20 ≠ 0) with
    | 0, false => some (sextWord (val + val2))
    | 0, true => some (sextWord (val - val2))
    | 1, false => some ((word <<< shamt).signExtend 64)
    | 5, false => some ((word >>> shamt).signExtend 64)
    | 5, true => some ((word.sshiftRight shamt).signExtend 64)
    | _, _ => none

/-- Whether a branch is taken, unless it is illegal. -/
def branchCond (funct3 : Nat) (a b : BitVec 64) : Option Bool :=
  let cond : Option Bool :=
    match funct3 / 2 with
    | 0 => some (decide (a = b))
    | 2 => some (a.slt b)
    | 3 => some (a.ult b)
    | _ => none
  cond.map fun cond => cond ^^ decide (funct3 % 2 = 1)

/-- What an atomic instruction stores, from the old value and the operand, both of
`8 * bytes` bits. -/
def amoValue {w : Nat} (funct5 : Nat) (val val2 : BitVec w) : Option (BitVec w) :=
  match funct5 with
  | 0x01 => some val2
  | 0x00 => some (val + val2)
  | 0x04 => some (val ^^^ val2)
  | 0x0c => some (val &&& val2)
  | 0x08 => some (val ||| val2)
  | 0x10 => some (if val.slt val2 then val else val2)
  | 0x14 => some (if val2.slt val then val else val2)
  | 0x18 => some (if val.ult val2 then val else val2)
  | 0x1c => some (if val2.ult val then val else val2)
  | _ => none

namespace Exec

def getPc : Exec t π (BitVec 64) := read fun s => s.pc

def jumpTo (pc : BitVec 64) : Exec t π Flow := do
  update fun s => { s with pc := pc }
  return .jump

/-- The value of an instruction that only computes one. -/
def setResult (rd : BitVec 5) (val : Option (BitVec 64)) : Exec t π Flow := do
  match val with
  | none => illegal
  | some val =>
    setReg rd val
    return .next 4

/-- The sign or zero extension that a load gives its value. -/
def loadValue (funct3 : Nat) : Option (Size × (BitVec 64 → BitVec 64)) :=
  match funct3 with
  | 0 => some (.u8, fun val => (val.setWidth 8).signExtend 64)
  | 1 => some (.u16, fun val => (val.setWidth 16).signExtend 64)
  | 2 => some (.u32, sextWord)
  | 3 => some (.u64, id)
  | 4 => some (.u8, id)
  | 5 => some (.u16, id)
  | 6 => some (.u32, id)
  | _ => none

def load (env : Env t π) (insn : BitVec 32) : Exec t π Flow := do
  let base ← getReg (rs1Of insn)
  match loadValue (funct3Of insn) with
  | none => illegal
  | some (sz, extend) =>
    let rval ← targetRead env sz (base + (immI insn).signExtend 64)
    setReg (rdOf insn) (extend rval)
    return .next 4

def storeSize (funct3 : Nat) : Option Size :=
  match funct3 with
  | 0 => some .u8
  | 1 => some .u16
  | 2 => some .u32
  | 3 => some .u64
  | _ => none

def store (env : Env t π) (insn : BitVec 32) : Exec t π Flow := do
  let base ← getReg (rs1Of insn)
  let val ← getReg (rs2Of insn)
  match storeSize (funct3Of insn) with
  | none => illegal
  | some sz =>
    storeInsn env sz (base + (immS insn).signExtend 64) val 4
    return .next 4

def jal (insn : BitVec 32) : Exec t π Flow := do
  let pc ← getPc
  setReg (rdOf insn) (pc + 4)
  jumpTo (pc + (immJ insn).signExtend 64)

def jalr (insn : BitVec 32) : Exec t π Flow := do
  let pc ← getPc
  let base ← getReg (rs1Of insn)
  setReg (rdOf insn) (pc + 4)
  jumpTo ((base + (immI insn).signExtend 64) &&& ~~~1)

def branch (insn : BitVec 32) : Exec t π Flow := do
  let a ← getReg (rs1Of insn)
  let b ← getReg (rs2Of insn)
  match branchCond (funct3Of insn) a b with
  | none => illegal
  | some false => return .next 4
  | some true =>
    let pc ← getPc
    jumpTo (pc + (immB insn).signExtend 64)

/-! ## Atomic instructions -/

/-- `OP_A(size)`, at a size of 32 or 64 bits. -/
def loadReserved (env : Env t π) (sz : Size) (extend : BitVec 64 → BitVec 64)
    (insn : BitVec 32) : Exec t π Flow := do
  let addr ← getReg (rs1Of insn)
  if rs2Of insn ≠ 0 then illegal
  else if addr &&& sz.alignMask ≠ 0 then fault causeMisalignedLoad addr
  else
    let rval ← targetRead env sz addr
    update fun s =>
      { s with loadRes := addr, loadResSize := BitVec.ofNat 8 sz.bytes, loadResValid := true }
    setReg (rdOf insn) (extend rval)
    return .next 4

def storeConditional (env : Env t π) (sz : Size) (insn : BitVec 32) : Exec t π Flow := do
  let addr ← getReg (rs1Of insn)
  if addr &&& sz.alignMask ≠ 0 then fault causeMisalignedStore addr
  else
    let reserved ← read fun s =>
      s.loadResValid && s.loadRes == addr && s.loadResSize == BitVec.ofNat 8 sz.bytes
    if reserved then
      let val ← getReg (rs2Of insn)
      storeInsn env sz addr val 4
    else targetWriteCheck env addr
    update fun s => { s with loadResValid := false }
    setReg (rdOf insn) (if reserved then 0 else 1)
    return .next 4

def amo (env : Env t π) (sz : Size) (extend : BitVec 64 → BitVec 64) (insn : BitVec 32) :
    Exec t π Flow := do
  let addr ← getReg (rs1Of insn)
  let funct5 := (insn >>> 27).toNat
  if (amoValue funct5 (0 : BitVec 64) 0).isNone then illegal
  else if addr &&& sz.alignMask ≠ 0 then fault causeMisalignedStore addr
  else
    let rval ← targetRead env sz addr
    let val2 ← getReg (rs2Of insn)
    match amoValue funct5 (rval.setWidth (8 * sz.bytes)) (val2.setWidth (8 * sz.bytes)) with
    | none => illegal
    | some new =>
      storeInsn env sz addr (new.setWidth 64) 4
      setReg (rdOf insn) (extend rval)
      return .next 4

def atomic (env : Env t π) (insn : BitVec 32) : Exec t π Flow := do
  let run (sz : Size) (extend : BitVec 64 → BitVec 64) : Exec t π Flow :=
    match (insn >>> 27).toNat with
    | 2 => loadReserved env sz extend insn
    | 3 => storeConditional env sz insn
    | _ => amo env sz extend insn
  match funct3Of insn with
  | 2 => run .u32 sextWord
  | 3 => run .u64 id
  | _ => illegal

/-! ## Floating point -/

def fpLoad (env : Env t π) (insn : BitVec 32) : Exec t π Flow := do
  let fs ← read fun s => s.fs
  let base ← getReg (rs1Of insn)
  let addr := base + (immI insn).signExtend 64
  if fs = 0 then illegal
  else
    match funct3Of insn with
    | 2 =>
      let rval ← targetRead env .u32 addr
      update fun s =>
        { s with
          fpReg := Function.update s.fpReg (rdOf insn) (rval ||| 0xffffffff00000000), fs := 3 }
      return .next 4
    | 3 =>
      let rval ← targetRead env .u64 addr
      update fun s => { s with fpReg := Function.update s.fpReg (rdOf insn) rval, fs := 3 }
      return .next 4
    | _ => illegal

def fpStore (env : Env t π) (insn : BitVec 32) : Exec t π Flow := do
  let fs ← read fun s => s.fs
  let base ← getReg (rs1Of insn)
  let val ← read fun s => s.fpReg (rs2Of insn)
  let addr := base + (immS insn).signExtend 64
  if fs = 0 then illegal
  else
    match funct3Of insn with
    | 2 =>
      storeInsn env .u32 addr val 4
      return .next 4
    | 3 =>
      storeInsn env .u64 addr val 4
      return .next 4
    | _ => illegal

/-- The arithmetic of the floating-point unit. -/
def fpArith (env : Env t π) (insn : BitVec 32) : Exec t π Flow := fun c =>
  let s := c.cpu
  if s.fs = 0 then (.err .illegalInsn, c)
  else
    match env.fpu insn s.reg s.fpReg s.frm s.fflags with
    | none => (.err .illegalInsn, c)
    | some (reg, fpReg, fflags, dirty) =>
      (.ok (.next 4), { c with cpu :=
        { s with
          reg := reg, fpReg := fpReg, fflags := fflags, fs := if dirty then 3 else s.fs } })

/-! ## Control and status registers -/

def csrRead (csr : BitVec 12) (willWrite : Bool) : Exec t π (BitVec 64) :=
  Op.reading fun c => Outcome.okOr .illegalInsn (c.cpu.csrRead c.guestTimerTicks csr willWrite)

/-- `csr_write`.  A write to `minstret` takes the place of the retirement of its own
instruction. -/
def csrWrite (csr : BitVec 12) (val : BitVec 64) : Exec t π CSRWriteResult := fun c =>
  let (result, cpu) := c.cpu.csrWrite c.guestTimerTicks csr val
  let cpu := if result = .minstret then { cpu with minstretWrite := true } else cpu
  (.ok result, { c with
    cpu := cpu
    ram := if csr = 0x180 ∧ result = .flushTlb then c.ram.fence else c.ram })

/-- The end of an instruction that has read `old` from a register. -/
def csrDone (rd : BitVec 5) (old : BitVec 64) (result : CSRWriteResult) : Exec t π Flow := do
  match result with
  | .error => illegal
  | .flushTlb =>
    setReg rd old
    let pc ← getPc
    jumpTo (pc + 4)
  | .interrupt =>
    setReg rd old
    done 4
  | .ok | .minstret =>
    setReg rd old
    return .next 4

def csrrw (rd : BitVec 5) (csr : BitVec 12) (val : BitVec 64) : Exec t π Flow := do
  let old ← csrRead csr true
  let result ← csrWrite csr val
  csrDone rd old result

/-- `csrrs` and `csrrc`, which do not write when they name `x0`. -/
def csrrsc (rd : BitVec 5) (csr : BitVec 12) (rs1 : BitVec 5) (f : BitVec 64 → BitVec 64) :
    Exec t π Flow := do
  let old ← csrRead csr (decide (rs1 ≠ 0))
  if rs1 = 0 then csrDone rd old .ok
  else
    let result ← csrWrite csr (f old)
    csrDone rd old result

/-! ## System instructions -/

def isMop (insn : BitVec 32) : Prop :=
  insn &&& 0xb3c0707f = 0x81c04073 ∨ insn &&& 0xb200707f = 0x82004073

instance (insn : BitVec 32) : Decidable (isMop insn) := inferInstanceAs (Decidable (_ ∨ _))

/-- `goto exception` with the cause, which leaves the trap value. -/
def raise {α : Type} (cause : BitVec 32) : Exec t π α := do
  update fun s => { s with pendingException := cause }
  Op.fail .exception

def sret : Exec t π Flow := do
  update fun s => s.setPriv (handleSret s.toRiscvCpuState)
  retire
  Op.fail .doneInterp

def mret : Exec t π Flow := do
  update fun s => s.setPriv (handleMret s.toRiscvCpuState)
  retire
  Op.fail .doneInterp

def wfi : Exec t π Flow := do
  let idle ← read fun s => decide (s.mip &&& s.mie = 0)
  if idle then
    update fun s => { s with powerDownFlag := true }
    done 4
  else return .next 4

def sfenceVma : Exec t π Flow := do
  Op.modify fun c => { c with cpu := c.cpu.tlbFlushAll, ram := c.ram.fence }
  let pc ← getPc
  jumpTo (pc + 4)

/-- The instructions of `funct3` 0, by their upper 12 bits. -/
def privileged (insn : BitVec 32) : Exec t π Flow := do
  let s ← read id
  let clean := decide (insn &&& 0x000fff80 = 0)
  match (insn >>> 20).toNat with
  | 0x000 =>
    if clean then raise (causeUserEcall + BitVec.ofNat 32 s.priv.code) else illegal
  | 0x001 => if clean then raise causeBreakpoint else illegal
  | 0x00d | 0x01d => if clean then return .next 4 else illegal
  | 0x102 =>
    if clean ∧ Privilege.S.code ≤ s.priv.code ∧
        ¬(s.priv = .S ∧ s.mstatus &&& mstatusTsr ≠ 0) then sret
    else illegal
  | 0x302 => if clean ∧ Privilege.M.code ≤ s.priv.code then mret else illegal
  | 0x105 =>
    if insn &&& 0x00007f80 = 0 ∧ s.priv ≠ .U ∧
        ¬(s.priv.code < Privilege.M.code ∧ s.mstatus &&& mstatusTw ≠ 0) then wfi
    else illegal
  | 0x180 | 0x181 =>
    if insn = (insn >>> 20 <<< 20 ||| 0x73) ∧ s.priv ≠ .U then return .next 4 else illegal
  | imm =>
    if imm / 32 = 0x09 ∨ imm / 32 = 0x0b then
      if insn &&& 0x00007f80 = 0 ∧ s.priv ≠ .U ∧
          ¬(s.priv = .S ∧ s.mstatus &&& mstatusTvm ≠ 0) then sfenceVma
      else illegal
    else illegal

def system (insn : BitVec 32) : Exec t π Flow := do
  let rd := rdOf insn
  let rs1 := rs1Of insn
  let csr : BitVec 12 := insn.extractLsb' 20 12
  let funct3 := funct3Of insn
  if funct3 = 4 ∧ isMop insn then
    setReg rd 0
    return .next 4
  else
    let reg ← getReg rs1
    let val := if funct3 / 4 = 1 then rs1.setWidth 64 else reg
    match funct3 % 4 with
    | 0 => privileged insn
    | 1 => csrrw rd csr val
    | 2 => csrrsc rd csr rs1 fun old => old ||| val
    | _ => csrrsc rd csr rs1 fun old => old &&& ~~~val

/-! ## Memory ordering and cache blocks -/

/-- Whether the mode may use the cache-block instruction. -/
def cboAllowed (s : CpuState t) (imm : Nat) : Bool :=
  let enabled (envcfg : BitVec 64) : Bool :=
    match imm with
    | 0 => envcfg &&& envcfgCbie ≠ 0
    | 4 => envcfg &&& envcfgCbze ≠ 0
    | _ => envcfg &&& envcfgCbcfe ≠ 0
  s.priv = .M || (enabled s.menvcfg && (s.priv ≠ .U || enabled s.senvcfg))

def cbo (env : Env t π) (insn : BitVec 32) : Exec t π Flow := do
  let imm := (insn >>> 20).toNat
  let s ← read id
  let val := s.reg.get (rs1Of insn)
  let addr := val &&& ~~~63
  if rdOf insn ≠ 0 ∨ (imm > 2 ∧ imm ≠ 4) ∨ cboAllowed s imm = false then illegal
  else
    match ← getPhysAddr env addr (if imm = 4 then .write else .read) with
    | .accessFault => fault causeFaultStore val
    | .pageFault => fault causeStorePageFault val
    | .ok paddr =>
      match physRamAccessOk env.map paddr 64 with
      | none => fault causeFaultStore val
      | some (i, pr) =>
        if imm = 4 then
          if pr.isRom then fault causeFaultStore val
          else
            Op.modify fun c =>
              { c with
                ram := (c.ram.setDirtyBit i pr (paddr - pr.addr)).storeBytes (pr.ptr paddr) 64 0 }
            return .next 4
        else return .next 4

def miscMem (env : Env t π) (insn : BitVec 32) : Exec t π Flow := do
  match funct3Of insn with
  | 0 => if insn &&& 0xf00fff80 = 0 then return .next 4 else illegal
  | 1 => if insn = 0x0000100f then return .next 4 else illegal
  | 2 => cbo env insn
  | _ => illegal

/-- The 32-bit instructions, by opcode. -/
def exec32 (env : Env t π) (insn : BitVec 32) : Exec t π Flow := do
  let rd := rdOf insn
  let val ← getReg (rs1Of insn)
  let val2 ← getReg (rs2Of insn)
  match opcodeOf insn with
  | 0x37 => setResult rd (some ((immU insn).signExtend 64))
  | 0x17 =>
    let pc ← getPc
    setResult rd (some (pc + (immU insn).signExtend 64))
  | 0x6f => jal insn
  | 0x67 => jalr insn
  | 0x63 => branch insn
  | 0x03 => load env insn
  | 0x23 => store env insn
  | 0x13 => setResult rd (opImm (funct3Of insn) (immI insn) val)
  | 0x1b => setResult rd (opImm32 (funct3Of insn) (immI insn) val)
  | 0x33 => setResult rd (op t (insn >>> 25) (funct3Of insn) val val2)
  | 0x3b => setResult rd (op32 (insn >>> 25) (rs2Of insn) (funct3Of insn) val val2)
  | 0x73 => system insn
  | 0x0f => miscMem env insn
  | 0x2f => atomic env insn
  | 0x07 => fpLoad env insn
  | 0x27 => fpStore env insn
  | 0x43 | 0x47 | 0x4b | 0x4f | 0x53 => fpArith env insn
  | _ => illegal

end Exec

end Cpu
end Riscbox

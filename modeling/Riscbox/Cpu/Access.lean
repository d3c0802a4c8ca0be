import Riscbox.Cpu.Translate

/-!
# Loads, stores and instruction fetch
-/

namespace Riscbox
namespace Cpu

variable {t : Target} {π : Type}

def causeMisalignedLoad : BitVec 32 := 4
def causeFaultFetch : BitVec 32 := 1
def causeIllegalInstruction : BitVec 32 := 2
def causeBreakpoint : BitVec 32 := 3
def causeFaultLoad : BitVec 32 := 5
def causeMisalignedStore : BitVec 32 := 6
def causeFaultStore : BitVec 32 := 7
def causeUserEcall : BitVec 32 := 8
def causeFetchPageFault : BitVec 32 := 0xc
def causeLoadPageFault : BitVec 32 := 0xd
def causeStorePageFault : BitVec 32 := 0xf

/-- The operand sizes of a load or a store. -/
inductive Size
  | u8
  | u16
  | u32
  | u64
  deriving DecidableEq, Repr

namespace Size

def log2 : Size → Nat
  | u8 => 0
  | u16 => 1
  | u32 => 2
  | u64 => 3

def bytes : Size → Nat
  | u8 => 1
  | u16 => 2
  | u32 => 4
  | u64 => 8

/-- The conversion to the unsigned type of the size. -/
def truncate (sz : Size) (val : BitVec 64) : BitVec 64 := (val.setWidth (8 * sz.bytes)).setWidth 64

def alignMask (sz : Size) : BitVec 64 := BitVec.ofNat 64 (sz.bytes - 1)

end Size

namespace Tlb

/-- The tag comparison of the fast path. -/
def hits (tlb : Tlb t) (sz : Size) (addr : BitVec 64) : Prop :=
  (tlb (index addr)).vaddr = addr &&& ~~~(0xfff &&& ~~~sz.alignMask)

instance (tlb : Tlb t) (sz : Size) (addr : BitVec 64) : Decidable (tlb.hits sz addr) :=
  inferInstanceAs (Decidable (_ = _))

/-- The host address that the entry for `addr` selects. -/
def ptr (tlb : Tlb t) (addr : BitVec 64) : Ptr t := (tlb (index addr)).memAddend + toPtr addr

end Tlb

/-! ## Interrupt lines and devices -/

def externalLines : BitVec 32 := mipMsip ||| mipMtip ||| mipMeip ||| mipSeip

namespace CpuState

/-- `riscv_cpu_set_mip`. -/
def setMip (s : CpuState t) (mask : BitVec 32) : CpuState t :=
  let mip := s.mip ||| mask
  { s with
    mip := mip
    powerDownFlag := if s.powerDownFlag ∧ mip &&& s.mie ≠ 0 then false else s.powerDownFlag }

/-- `riscv_cpu_reset_mip`. -/
def resetMip (s : CpuState t) (mask : BitVec 32) : CpuState t :=
  { s with mip := s.mip &&& ~~~mask }

/-- `tinyemu_core_set_interrupts`. -/
def setInterrupts (s : CpuState t) (mask : BitVec 32) : CpuState t :=
  (s.resetMip externalLines).setMip (mask &&& externalLines)

end CpuState

namespace TinyemuCore

/-- `tinyemu_core_ram_range` for writing: the host address of a range of RAM, with its
pages marked. -/
def ramRangeForWrite (env : Env t π) (c : TinyemuCore t π) (address : BitVec 64) (len : Nat) :
    Option (Ptr t × TinyemuCore t π) :=
  match getPhysMemRange env.map address with
  | none => none
  | some (i, pr) =>
    if !pr.isRam ∨ pr.isRom ∨ len > pr.size.toNat - (address - pr.addr).toNat then none
    else
      let first := (address - pr.addr).toNat
      let pages :=
        if len = 0 then []
        else List.range' (first / 4096) ((first + len - 1) / 4096 + 1 - first / 4096)
      let ram := pages.foldl (fun ram page =>
        ram.setDirtyBit i pr (BitVec.ofNat 64 (page * 4096))) c.ram
      some (pr.ptr address, { c with ram := ram.handOut (pr.ptr address) len })

/-- A write through the slice that `tinyemu_core_ram_range` returned. -/
def writeRam (env : Env t π) (c : TinyemuCore t π) (address : BitVec 64)
    (bytes : List (BitVec 8)) : TinyemuCore t π :=
  match c.ramRangeForWrite env address bytes.length with
  | none => c
  | some (ptr, c) => { c with ram := c.ram.copyBytes ptr bytes }

def setInterrupts (c : TinyemuCore t π) (mask : BitVec 32) : TinyemuCore t π :=
  { c with cpu := c.cpu.setInterrupts mask }

end TinyemuCore

namespace Exec

/-- `read_device`; nothing where the device refuses. -/
def readDevice (env : Env t π) (base : BitVec 64) (offset : BitVec 32) (sizeLog2 : Nat) :
    Exec t π (Option (BitVec 32)) := fun c =>
  match env.platformRead c.platform c.ram.mem (base + offset.setWidth 64) (2 ^ sizeLog2) with
  | (ok, value, platform) =>
    (.ok (if ok then some value else none),
      { c with platform := platform }.setInterrupts (env.platformInterrupts platform))

/-- `write_device`. -/
def writeDevice (env : Env t π) (base : BitVec 64) (offset : BitVec 32) (value : BitVec 32)
    (sizeLog2 : Nat) : Exec t π Bool := fun c =>
  match env.platformWrite c.platform c.ram.mem (base + offset.setWidth 64) (2 ^ sizeLog2) value
  with
  | ⟨ok, platform, writes⟩ =>
    let c := writes.foldl (fun c (address, bytes) => c.writeRam env address bytes)
      { c with platform := platform }
    let c := c.setInterrupts (env.platformInterrupts platform)
    if ok ∧ env.platformServiceRequested platform then
      (.ok ok, { c with cpu := { c.cpu with hostServiceRequested := true } })
    else (.ok ok, c)

/-! ## Loads -/

def getPhysAddr (env : Env t π) (vaddr : BitVec 64) (access : Access) :
    Exec t π TinyemuCore.TranslationResult := fun c =>
  let (result, c) := c.getPhysAddr env vaddr access
  (.ok result, c)

def loadBytes (ptr : Ptr t) (sz : Size) : Exec t π (BitVec 64) :=
  Op.reading fun c => .ok (c.ram.mem.load ptr sz.bytes)

def storeBytes (ptr : Ptr t) (sz : Size) (val : BitVec 64) : Exec t π Unit :=
  Op.modify fun c => { c with ram := c.ram.storeBytes ptr sz.bytes val }

/-- Whether a device range takes accesses of the size as they are. -/
def takesSize (pr : PhysMemoryRange t) (sz : Size) : Prop :=
  (pr.devioFlags >>> sz.log2) &&& 1 ≠ 0

instance (pr : PhysMemoryRange t) (sz : Size) : Decidable (takesSize pr sz) :=
  inferInstanceAs (Decidable (_ ≠ _))

/-- Whether a 64-bit access is made of two 32-bit ones. -/
def splits (pr : PhysMemoryRange t) (sz : Size) : Prop :=
  pr.devioFlags &&& devioSize32 ≠ 0 ∧ sz = .u64

instance (pr : PhysMemoryRange t) (sz : Size) : Decidable (splits pr sz) :=
  inferInstanceAs (Decidable (_ ∧ _))

/-- The device branch of `target_read_slow`. -/
def readIo (env : Env t π) (pr : PhysMemoryRange t) (paddr : BitVec 64) (sz : Size) :
    Exec t π (Option (BitVec 64)) := do
  let offset := (paddr - pr.addr).setWidth 32
  if takesSize pr sz then
    let value ← readDevice env pr.addr offset sz.log2
    return value.map (·.setWidth 64)
  else if splits pr sz then
    let low ← readDevice env pr.addr offset 2
    match low with
    | none => return none
    | some low =>
      let high ← readDevice env pr.addr (offset + 4) 2
      return high.map fun (high : BitVec 32) =>
        (low.setWidth 64 ||| high.setWidth 64 <<< 32 : BitVec 64)
  else return none

/-- `target_read_slow` at an aligned address. -/
def targetReadSlowAligned (env : Env t π) (sz : Size) (addr : BitVec 64) :
    Exec t π (BitVec 64) := do
  match ← getPhysAddr env addr .read with
  | .accessFault => fault causeFaultLoad addr
  | .pageFault => fault causeLoadPageFault addr
  | .ok paddr =>
    match getPhysMemRange env.map paddr with
    | none => fault causeFaultLoad addr
    | some (_, pr) =>
      if pr.isRam then
        update fun s => { s with tlbRead := s.tlbRead.fill addr (pr.ptr paddr) }
        loadBytes (pr.ptr paddr) sz
      else
        match ← readIo env pr paddr sz with
        | none => fault causeFaultLoad addr
        | some val => return sz.truncate val

/-- `target_read_uN` at an aligned address. -/
def targetReadAligned (env : Env t π) (sz : Size) (addr : BitVec 64) : Exec t π (BitVec 64) := do
  let tlb ← read fun s => s.tlbRead
  if tlb.hits sz addr then loadBytes (tlb.ptr addr) sz else targetReadSlowAligned env sz addr

def targetReadSlow (env : Env t π) (sz : Size) (addr : BitVec 64) : Exec t π (BitVec 64) := do
  let al := addr &&& sz.alignMask
  if al = 0 then targetReadSlowAligned env sz addr
  else
    match sz with
    | .u8 => targetReadSlowAligned env .u8 addr
    | .u16 =>
      let v0 ← targetReadAligned env .u8 addr
      let v1 ← targetReadAligned env .u8 (addr + 1)
      return v0 ||| v1 <<< 8
    | .u32 =>
      let v0 ← targetReadAligned env .u32 (addr - al)
      let v1 ← targetReadAligned env .u32 (addr - al + 4)
      return Size.truncate .u32 (v0 >>> (al.toNat * 8) ||| v1 <<< (32 - al.toNat * 8))
    | .u64 =>
      let v0 ← targetReadAligned env .u64 (addr - al)
      let v1 ← targetReadAligned env .u64 (addr - al + 8)
      return v0 >>> (al.toNat * 8) ||| v1 <<< (64 - al.toNat * 8)

/-- `target_read_uN`. -/
def targetRead (env : Env t π) (sz : Size) (addr : BitVec 64) : Exec t π (BitVec 64) := do
  let tlb ← read fun s => s.tlbRead
  if tlb.hits sz addr then loadBytes (tlb.ptr addr) sz else targetReadSlow env sz addr

/-! ## Stores -/

/-- The device branch of `target_write_slow`. -/
def writeIo (env : Env t π) (pr : PhysMemoryRange t) (paddr : BitVec 64) (val : BitVec 64)
    (sz : Size) : Exec t π Bool := do
  let offset := (paddr - pr.addr).setWidth 32
  if takesSize pr sz then writeDevice env pr.addr offset (val.setWidth 32) sz.log2
  else if splits pr sz then
    if ← writeDevice env pr.addr offset (val.setWidth 32) 2 then
      writeDevice env pr.addr (offset + 4) ((val >>> 32).setWidth 32) 2
    else return false
  else return false

def hostServiceRequested : Exec t π Bool := read fun s => s.hostServiceRequested

/-- `target_write_slow` at an aligned address; the value says whether the host has work
to do. -/
def targetWriteSlowAligned (env : Env t π) (sz : Size) (addr val : BitVec 64) :
    Exec t π Bool := do
  match ← getPhysAddr env addr .write with
  | .accessFault => fault causeFaultStore addr
  | .pageFault => fault causeStorePageFault addr
  | .ok paddr =>
    match getPhysMemRange env.map paddr with
    | none => fault causeFaultStore addr
    | some (i, pr) =>
      if pr.isRam then
        Op.modify fun c => { c with ram := c.ram.setDirtyBit i pr (paddr - pr.addr) }
        update fun s => { s with tlbWrite := s.tlbWrite.fill addr (pr.ptr paddr) }
        storeBytes (pr.ptr paddr) sz val
        hostServiceRequested
      else if ← writeIo env pr paddr val sz then hostServiceRequested
      else fault causeFaultStore addr

/-- `target_write_u8`. -/
def targetWriteByte (env : Env t π) (addr val : BitVec 64) : Exec t π Bool := do
  let tlb ← read fun s => s.tlbWrite
  if tlb.hits .u8 addr then
    storeBytes (tlb.ptr addr) .u8 val
    return false
  else targetWriteSlowAligned env .u8 addr val

/-- The bytes of an unaligned store, of which `n` are left. -/
def targetWriteBytes (env : Env t π) : BitVec 64 → BitVec 64 → Nat → Exec t π Unit
  | _, _, 0 => return
  | addr, val, n + 1 => do
    let _ ← targetWriteByte env addr (val &&& 0xff)
    targetWriteBytes env (addr + 1) (val >>> 8) n

def targetWriteSlow (env : Env t π) (sz : Size) (addr val : BitVec 64) : Exec t π Bool := do
  if addr &&& sz.alignMask = 0 then targetWriteSlowAligned env sz addr val
  else
    targetWriteBytes env addr val sz.bytes
    hostServiceRequested

/-- `target_write_uN`. -/
def targetWrite (env : Env t π) (sz : Size) (addr val : BitVec 64) : Exec t π Bool := do
  let tlb ← read fun s => s.tlbWrite
  if tlb.hits sz addr then
    storeBytes (tlb.ptr addr) sz val
    return false
  else targetWriteSlow env sz addr val

def targetWriteCheck (env : Env t π) (addr : BitVec 64) : Exec t π Unit := do
  match ← getPhysAddr env addr .write with
  | .accessFault => fault causeFaultStore addr
  | .pageFault => fault causeStorePageFault addr
  | .ok _ => return

/-- `STORE_INSN`: where the host has work to do, the store retires first. -/
def storeInsn (env : Env t π) (sz : Size) (addr val length : BitVec 64) : Exec t π Unit := do
  if ← targetWrite env sz addr val then done length

/-! ## Fetch -/

def targetReadInsnSlow (env : Env t π) (addr : BitVec 64) : Exec t π (Ptr t) := do
  match ← getPhysAddr env addr .code with
  | .accessFault => fault causeFaultFetch addr
  | .pageFault => fault causeFetchPageFault addr
  | .ok paddr =>
    match getPhysMemRange env.map paddr with
    | none => fault causeFaultFetch addr
    | some (_, pr) =>
      if pr.isRam then
        update fun s => { s with tlbCode := s.tlbCode.fill addr (pr.ptr paddr) }
        return pr.ptr paddr
      else fault causeFaultFetch addr

/-- The tag comparison of the fetch loop. -/
def codeHits (tlb : Tlb t) (addr : BitVec 64) : Prop :=
  (tlb (Tlb.index addr)).vaddr = Tlb.page addr

instance (tlb : Tlb t) (addr : BitVec 64) : Decidable (codeHits tlb addr) :=
  inferInstanceAs (Decidable (_ = _))

/-- The host address of the code at `addr`. -/
def codePtr (env : Env t π) (addr : BitVec 64) : Exec t π (Ptr t) := do
  let tlb ← read fun s => s.tlbCode
  if codeHits tlb addr then return tlb.ptr addr else targetReadInsnSlow env addr

/-- The fetch at a block boundary; an instruction half way between two pages takes a
second one. -/
def fetchInsn (env : Env t π) : Exec t π (BitVec 32) := do
  let addr ← read fun s => s.pc
  let ptr ← codePtr env addr
  let low ← loadBytes ptr .u16
  if 0xffe ≤ addr &&& 0xfff then
    if low &&& 3 = 3 then
      let ptr ← codePtr env (addr + 2)
      let high ← loadBytes ptr .u16
      return low.setWidth 32 ||| high.setWidth 32 <<< 16
    else return low.setWidth 32
  else
    let insn ← loadBytes ptr .u32
    return insn.setWidth 32

end Exec

end Cpu
end Riscbox

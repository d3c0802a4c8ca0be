import Riscbox.Cpu.Csr

/-!
# Address translation
-/

namespace Riscbox
namespace Cpu

variable {t : Target} {π : Type}

def pteV : BitVec 64 := 1 <<< 0
def pteU : BitVec 64 := 1 <<< 4
def pteA : BitVec 64 := 1 <<< 6
def pteD : BitVec 64 := 1 <<< 7
def ptePpnMask : BitVec 64 := (1 <<< 44) - 1
def ptePbmtMask : BitVec 64 := 3 <<< 61
def pteN : BitVec 64 := 1 <<< 63
def pteHighReservedMask : BitVec 64 := 0x7f <<< 54
def pteNonleafReservedMask : BitVec 64 := pteU ||| pteA ||| pteD ||| ptePbmtMask ||| pteN

inductive Access
  | read
  | write
  | code
  deriving DecidableEq, Repr

/-- The `ACCESS_x` numbers. -/
def Access.number : Access → Nat
  | read => 0
  | write => 1
  | code => 2

/-- What a translation finds: a fault, or the physical address with the entry that it
has to write back and that entry's address. -/
inductive Translation
  | pageFault
  | accessFault
  | ok (paddr : BitVec 64) (update : Option (BitVec 64 × BitVec 64))
  deriving DecidableEq, Repr

/-- `phys_read_pte`. -/
def physReadPte (map : PhysMemoryMap t) (mem : HostMem t) (paddr : BitVec 64) :
    Option (BitVec 64) :=
  (physRamAccessOk map paddr 8).map fun (_, pr) => mem.load (pr.ptr paddr) 8

namespace CpuState

def getEffectivePriv (s : CpuState t) (access : Access) : Privilege :=
  if s.mstatus &&& mstatusMprv ≠ 0 ∧ access ≠ .code then
    Privilege.ofField (s.mstatus >>> mstatusMppShift &&& 3)
  else s.priv

/-- The permission bits of an entry, of which an access needs its own. -/
def permissions (s : CpuState t) (pte : BitVec 64) : BitVec 64 :=
  let xwr := pte >>> 1 &&& 7
  if s.mstatus &&& mstatusMxr ≠ 0 then xwr ||| xwr >>> 2 else xwr

/-- The checks on a leaf entry that do not concern its `A` and `D` bits. -/
def leafFaults (s : CpuState t) (priv : Privilege) (access : Access) (pte : BitVec 64) : Prop :=
  let xwr := pte >>> 1 &&& 7
  xwr = 2 ∨ xwr = 6 ∨
    (if priv = .S then pte &&& pteU ≠ 0 ∧ s.mstatus &&& mstatusSum = 0 else pte &&& pteU = 0) ∨
    s.permissions pte >>> access.number &&& 1 = 0

instance (s : CpuState t) (priv : Privilege) (access : Access) (pte : BitVec 64) :
    Decidable (s.leafFaults priv access pte) :=
  inferInstanceAs (Decidable (_ ∨ _ ∨ _ ∨ _))

def groupMask : BitVec 64 := 0xf <<< pageShift

/-- The page number field of an entry as an address, after the choice of a page within
a contiguous group; a group is 16 pages at the last level. -/
def leafBase (pte vaddr : BitVec 64) (level : Nat) : Option (BitVec 64) :=
  let paddr := (pte >>> 10 &&& ptePpnMask) <<< pageShift
  if pte &&& pteN ≠ 0 then
    if level ≠ 0 ∨ paddr >>> pageShift &&& 0xf ≠ 8 then none
    else some ((paddr &&& ~~~groupMask) ||| (vaddr &&& groupMask))
  else some paddr

def vaddrShift (level : Nat) : Nat := pageShift + 9 * level

/-- The entry with the bits that the access sets. -/
def touched (access : Access) (pte : BitVec 64) : BitVec 64 :=
  if access = .write then pte ||| pteA ||| pteD else pte ||| pteA

def needWrite (access : Access) (pte : BitVec 64) : Prop :=
  pte &&& pteA = 0 ∨ (pte &&& pteD = 0 ∧ access = .write)

instance (access : Access) (pte : BitVec 64) : Decidable (needWrite access pte) :=
  inferInstanceAs (Decidable (_ ∨ _))

/-- A leaf entry at `pteAddr`, `level` levels above the last one. -/
def leaf (s : CpuState t) (priv : Privilege) (vaddr : BitVec 64) (access : Access)
    (pteAddr pte : BitVec 64) (level : Nat) : Translation :=
  if pte &&& ptePbmtMask = ptePbmtMask ∨
      (pte &&& ptePbmtMask ≠ 0 ∧ s.menvcfg &&& menvcfgPbmte = 0) then .pageFault
  else
    match leafBase pte vaddr level with
    | none => .pageFault
    | some base =>
      let mask : BitVec 64 := (1 <<< vaddrShift level) - 1
      if base &&& mask ≠ 0 ∨ s.leafFaults priv access pte then .pageFault
      else if needWrite access pte ∧ s.menvcfg &&& menvcfgAdue = 0 then .pageFault
      else
        .ok ((vaddr &&& mask) ||| (base &&& ~~~mask))
          (if needWrite access pte then some (pteAddr, touched access pte) else none)

/-- The walk from the table at `base`; the last of its `levels` levels is level 0. -/
def walk (s : CpuState t) (read : BitVec 64 → Option (BitVec 64)) (priv : Privilege)
    (vaddr : BitVec 64) (access : Access) : Nat → BitVec 64 → Translation
  | 0, _ => .pageFault
  | level + 1, base =>
    let pteAddr := base + (vaddr >>> vaddrShift level &&& 0x1ff) * 8
    match read pteAddr with
    | none => .accessFault
    | some pte =>
      if pte &&& pteV = 0 ∨ pte &&& pteHighReservedMask ≠ 0 then .pageFault
      else if pte >>> 1 &&& 7 ≠ 0 then s.leaf priv vaddr access pteAddr pte level
      else if pte &&& pteNonleafReservedMask ≠ 0 then .pageFault
      else walk s read priv vaddr access level ((pte >>> 10 &&& ptePpnMask) <<< pageShift)

/-- What `get_phys_addr` finds before it writes an entry back. -/
def translate (s : CpuState t) (read : BitVec 64 → Option (BitVec 64)) (vaddr : BitVec 64)
    (access : Access) : Translation :=
  let priv := s.getEffectivePriv access
  if priv = .M ∨ s.satp >>> 60 = 0 then .ok vaddr none
  else if vaddr >>> 38 ≠ 0 ∧ vaddr >>> 38 ≠ BitVec.allOnes 64 >>> 38 then .pageFault
  else s.walk read priv vaddr access 3 ((s.satp &&& satpPpnMask) <<< pageShift)

end CpuState

/-- `phys_write_pte`. -/
def physWritePte (map : PhysMemoryMap t) (ram : Ram t) (paddr val : BitVec 64) :
    Option (Ram t) :=
  match physRamAccessOk map paddr 8 with
  | none => none
  | some (i, pr) =>
    if pr.isRom then none
    else some ((ram.setDirtyBit i pr (paddr - pr.addr)).writeEntry (pr.ptr paddr) val)

namespace TinyemuCore

def translation (env : Env t π) (c : TinyemuCore t π) (vaddr : BitVec 64) (access : Access) :
    Translation :=
  c.cpu.translate (physReadPte env.map c.ram.mem) vaddr access

/-- The result of `get_phys_addr`. -/
inductive TranslationResult
  | pageFault
  | accessFault
  | ok (paddr : BitVec 64)
  deriving DecidableEq, Repr

def getPhysAddr (env : Env t π) (vaddr : BitVec 64) (access : Access) (c : TinyemuCore t π) :
    TranslationResult × TinyemuCore t π :=
  match c.translation env vaddr access with
  | .pageFault => (.pageFault, c)
  | .accessFault => (.accessFault, c)
  | .ok paddr none => (.ok paddr, c)
  | .ok paddr (some (pteAddr, pte)) =>
    match physWritePte env.map c.ram pteAddr pte with
    | none => (.accessFault, c)
    | some ram => (.ok paddr, { c with ram := ram })

end TinyemuCore

end Cpu
end Riscbox

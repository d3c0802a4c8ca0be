import Mathlib.Data.BitVec
import Mathlib.Data.List.Basic

/-!
# Physical memory and its dirty bitmaps
-/

namespace Riscbox
namespace Cpu

/-- The builds of the core, which differ in the width of `uintptr_t`. -/
inductive Target
  | wasm32
  | native64
  deriving DecidableEq, Repr

def Target.ptrBits : Target → Nat
  | wasm32 => 32
  | native64 => 64

theorem Target.ptrBits_le (t : Target) : t.ptrBits ≤ 64 := by
  cases t <;> decide

theorem Target.ptrBits_ge (t : Target) : 32 ≤ t.ptrBits := by
  cases t <;> decide

variable {t : Target}

/-- A host address. -/
abbrev Ptr (t : Target) := BitVec t.ptrBits

/-- The conversion `(uintptr_t)`. -/
def toPtr (a : BitVec 64) : Ptr t := a.setWidth t.ptrBits

abbrev HostMem (t : Target) := Ptr t → BitVec 8

namespace HostMem

/-- The little-endian value of `n` bytes. -/
def load (mem : HostMem t) : Ptr t → Nat → BitVec 64
  | _, 0 => 0
  | ptr, n + 1 => (mem ptr).setWidth 64 ||| load mem (ptr + 1) n <<< 8

def store (mem : HostMem t) (ptr : Ptr t) (n : Nat) (val : BitVec 64) : HostMem t := fun q =>
  if (q - ptr).toNat < n then (val >>> (8 * (q - ptr).toNat)).setWidth 8 else mem q

end HostMem

/-! ## The memory map -/

def pageShift : Nat := 12

def devramFlagRom : BitVec 32 := 1
def devramFlagDirtyBits : BitVec 32 := 2
def devramFlagDisabled : BitVec 32 := 4

def devioSize32 : BitVec 32 := 4

/-- What lies behind a range of physical addresses. -/
inductive RangeKind (t : Target)
  | ram (devramFlags : BitVec 32) (physMem : Ptr t)
  | device (devioFlags : BitVec 32)

structure PhysMemoryRange (t : Target) where
  addr : BitVec 64
  orgSize : BitVec 64
  size : BitVec 64
  kind : RangeKind t

namespace PhysMemoryRange

def contains (pr : PhysMemoryRange t) (paddr : BitVec 64) : Bool :=
  decide (pr.addr ≤ paddr ∧ paddr < pr.addr + pr.size)

def isRam (pr : PhysMemoryRange t) : Bool :=
  match pr.kind with
  | .ram _ _ => true
  | .device _ => false

/-- The host block behind a RAM range. -/
def physMem (pr : PhysMemoryRange t) : Ptr t :=
  match pr.kind with
  | .ram _ physMem => physMem
  | .device _ => 0

def isRom (pr : PhysMemoryRange t) : Bool :=
  match pr.kind with
  | .ram flags _ => flags &&& devramFlagRom ≠ 0
  | .device _ => false

/-- Whether the range has dirty bitmaps. -/
def isTracked (pr : PhysMemoryRange t) : Bool :=
  match pr.kind with
  | .ram flags _ => flags &&& devramFlagDirtyBits ≠ 0
  | .device _ => false

def devioFlags (pr : PhysMemoryRange t) : BitVec 32 :=
  match pr.kind with
  | .ram _ _ => 0
  | .device flags => flags

/-- The host address of a physical address of the range. -/
def ptr (pr : PhysMemoryRange t) (paddr : BitVec 64) : Ptr t :=
  pr.physMem + toPtr (paddr - pr.addr)

/-- The words of one dirty bitmap. -/
def dirtyWords (pr : PhysMemoryRange t) : Nat := (pr.orgSize.toNat / 4096 + 31) / 32

/-- The range as `tinyemu_core_register_ram` enters it. -/
def registerRam (base len : BitVec 64) (flags : BitVec 32) (physMem : Ptr t) :
    PhysMemoryRange t where
  addr := base
  orgSize := len
  size := if flags &&& devramFlagDisabled ≠ 0 then 0 else len
  kind := .ram flags physMem

/-- The range as `tinyemu_core_register_device` enters it. -/
def registerDevice (base len : BitVec 64) (widths : BitVec 32) : PhysMemoryRange t where
  addr := base
  orgSize := len
  size := len
  kind := .device widths

/-- `q` is a byte of the host block. -/
def Holds (pr : PhysMemoryRange t) (q : Ptr t) : Prop :=
  (q - pr.physMem).toNat < pr.orgSize.toNat

instance (pr : PhysMemoryRange t) (q : Ptr t) : Decidable (pr.Holds q) :=
  inferInstanceAs (Decidable (_ < _))

end PhysMemoryRange

/-- A map that the platform has registered.  Registration checks that a RAM range
is a whole number of pages and does not wrap around; the platform registers its RAM
at page boundaries and before its devices; the allocator gives each RAM range a block
of its own. -/
structure PhysMemoryMap (t : Target) where
  ranges : List (PhysMemoryRange t)
  size_eq : ∀ pr ∈ ranges, pr.size = 0 ∨ pr.size = pr.orgSize
  noWrap : ∀ pr ∈ ranges, pr.addr.toNat + pr.orgSize.toNat < 2 ^ 64
  paged : ∀ pr ∈ ranges, pr.isRam → pr.addr.toNat % 4096 = 0 ∧ pr.orgSize.toNat % 4096 = 0
  ramFirst : ranges.Pairwise fun pr pr' => pr'.isRam → pr.isRam
  block : ∀ pr ∈ ranges, pr.isRam → pr.physMem.toNat + pr.orgSize.toNat < 2 ^ t.ptrBits
  disjoint : ranges.Pairwise fun pr pr' => pr.isRam → pr'.isRam →
    pr.physMem.toNat + pr.orgSize.toNat ≤ pr'.physMem.toNat ∨
      pr'.physMem.toNat + pr'.orgSize.toNat ≤ pr.physMem.toNat

/-- The first range that holds the address, with its index. -/
def findRange (paddr : BitVec 64) : Nat → List (PhysMemoryRange t) →
    Option (Nat × PhysMemoryRange t)
  | _, [] => none
  | i, pr :: ranges => if pr.contains paddr then some (i, pr) else findRange paddr (i + 1) ranges

def getPhysMemRange (map : PhysMemoryMap t) (paddr : BitVec 64) :
    Option (Nat × PhysMemoryRange t) :=
  findRange paddr 0 map.ranges

/-- The RAM that holds `size` bytes from `paddr` on. -/
def physRamAccessOk (map : PhysMemoryMap t) (paddr : BitVec 64) (size : Nat) :
    Option (Nat × PhysMemoryRange t) :=
  match getPhysMemRange map paddr with
  | none => none
  | some (i, pr) =>
    if !pr.isRam ∨ size > pr.size.toNat ∨ (paddr - pr.addr).toNat > pr.size.toNat - size then none
    else some (i, pr)

/-! ## Dirty bitmaps -/

/-- The two bitmaps of a range; `index` names the one that stores set. -/
structure DirtyBits where
  index : Bool
  tab : Bool → List (BitVec 32)

namespace DirtyBits

def current (d : DirtyBits) : List (BitVec 32) := d.tab d.index

def modify (d : DirtyBits) (f : List (BitVec 32) → List (BitVec 32)) : DirtyBits :=
  { d with tab := fun i => if i = d.index then f (d.tab i) else d.tab i }

/-- The other bitmap, cleared, becomes the current one. -/
def swap (d : DirtyBits) (words : Nat) : DirtyBits where
  index := !d.index
  tab := fun i => if i = !d.index then List.replicate words 0 else d.tab i

end DirtyBits

def dirtyMask (page : Nat) : BitVec 32 := (1 : BitVec 32) <<< (page % 32)

def setPage (page : Nat) (words : List (BitVec 32)) : List (BitVec 32) :=
  words.modify (page / 32) (· ||| dirtyMask page)

def resetPage (page : Nat) (words : List (BitVec 32)) : List (BitVec 32) :=
  words.modify (page / 32) (· &&& ~~~dirtyMask page)

def isDirtyPage (page : Nat) (words : List (BitVec 32)) : Bool :=
  (words.getD (page / 32) 0).getLsbD (page % 32)

/-! ## RAM contents -/

/-- The bytes behind the RAM ranges and the dirty bitmaps of the ranges.  The last
two fields are history variables that no function reads: the bytes that stores have
changed since the last `sfence.vma` or `satp` write, and the bytes that were stored
to, or handed to a writer, since the last snapshot of their range or page. -/
structure Ram (t : Target) where
  mem : HostMem t
  dirty : Nat → DirtyBits
  changed : Ptr t → Bool
  stored : Ptr t → Bool

namespace Ram

/-- `phys_mem_set_dirty_bit` at an offset of range `i`. -/
def setDirtyBit (ram : Ram t) (i : Nat) (pr : PhysMemoryRange t) (offset : BitVec 64) : Ram t :=
  if pr.isTracked then
    { ram with
      dirty := fun j =>
        if j = i then (ram.dirty j).modify (setPage (offset.toNat / 4096)) else ram.dirty j }
  else ram

/-- Writes by page walks, which leave what `changed` records. -/
def writeEntry (ram : Ram t) (ptr : Ptr t) (val : BitVec 64) : Ram t :=
  { ram with
    mem := ram.mem.store ptr 8 val
    stored := fun q => ram.stored q || decide ((q - ptr).toNat < 8) }

def storeBytes (ram : Ram t) (ptr : Ptr t) (n : Nat) (val : BitVec 64) : Ram t :=
  let mem := ram.mem.store ptr n val
  { ram with
    mem := mem
    changed := fun q => ram.changed q || decide (mem q ≠ ram.mem q)
    stored := fun q => ram.stored q || decide ((q - ptr).toNat < n) }

/-- A block that a writer gets. -/
def handOut (ram : Ram t) (ptr : Ptr t) (n : Nat) : Ram t :=
  { ram with stored := fun q => ram.stored q || decide ((q - ptr).toNat < n) }

/-- The bytes that a host or a device writes to its block. -/
def copyBytes (ram : Ram t) (ptr : Ptr t) (bytes : List (BitVec 8)) : Ram t :=
  let mem : HostMem t := fun q => bytes.getD (q - ptr).toNat (ram.mem q)
  { ram with
    mem := mem
    changed := fun q => ram.changed q || decide (mem q ≠ ram.mem q) }

def fence (ram : Ram t) : Ram t := { ram with changed := fun _ => false }

end Ram

end Cpu
end Riscbox

import Riscbox.Collections.LittleEndian
import Riscbox.Collections.Slices

/-!
# Guest memory

The physical ranges of `tinyemu-core/bridge.c` behind `MemoryAccess`.  A range is
found by its first address; an access must then lie inside it.  Every failure of an
access is the same to its callers here, so an access returns an option.
-/

namespace Riscbox
namespace Virtio

open Slices

/-- `PhysMemoryRange`: RAM, ROM, or the registers of a device. -/
structure PhysMemoryRange where
  addr : Nat
  size : Nat
  isRam : Bool
  isRom : Bool
  bytes : List UInt8
  length_eq : isRam = true → bytes.length = size

namespace PhysMemoryRange

def holds (range : PhysMemoryRange) (address : Nat) : Bool :=
  decide (range.addr ≤ address ∧ address < range.addr + range.size)

/-- The checks of `tinyemu_core_ram_range` on the range that it found. -/
def Allows (range : PhysMemoryRange) (address len : Nat) (write : Bool) : Prop :=
  range.isRam = true ∧ ¬(write = true ∧ range.isRom = true) ∧
    len ≤ range.size - (address - range.addr)

instance (range : PhysMemoryRange) (address len : Nat) (write : Bool) :
    Decidable (range.Allows address len write) :=
  inferInstanceAs (Decidable (_ ∧ _ ∧ _))

theorem Allows.inside {range : PhysMemoryRange} {address len : Nat} {write : Bool}
    (h : range.Allows address len write) (hholds : range.holds address = true) :
    address - range.addr + len ≤ range.bytes.length := by
  have hat := of_decide_eq_true hholds
  rw [range.length_eq h.1]
  have hlen := h.2.2
  omega

/-- A range with bytes written over it. -/
def overwrite (range : PhysMemoryRange) (address : Nat) (data : List UInt8)
    (hholds : range.holds address = true) (h : range.Allows address data.length true) :
    PhysMemoryRange :=
  { range with
    bytes := splice range.bytes (address - range.addr) data
    length_eq := fun hram => by
      rw [length_splice (h.inside hholds), range.length_eq hram] }

end PhysMemoryRange

/-- `PhysMemoryMap`, in the order in which its ranges are searched. -/
abbrev GuestMemory : Type := List PhysMemoryRange

namespace GuestMemory

/-- Whether `validate_ram` accepts an access. -/
def validateRam (address len : Nat) (write : Bool) : GuestMemory → Bool
  | [] => false
  | range :: rest =>
    if range.holds address = true then decide (range.Allows address len write)
    else validateRam address len write rest

/-- `read_bytes`. -/
def readBytes (address len : Nat) : GuestMemory → Option (List UInt8)
  | [] => none
  | range :: rest =>
    if range.holds address = true then
      if range.Allows address len false then
        some (slice range.bytes (address - range.addr) len)
      else none
    else readBytes address len rest

/-- `write_bytes`. -/
def writeBytes (address : Nat) (data : List UInt8) : GuestMemory → Option GuestMemory
  | [] => none
  | range :: rest =>
    if hholds : range.holds address = true then
      if h : range.Allows address data.length true then
        some (range.overwrite address data hholds h :: rest)
      else none
    else (writeBytes address data rest).map (range :: ·)

/-- `read`: a little-endian word. -/
def read (address width : Nat) (memory : GuestMemory) : Option Nat :=
  (memory.readBytes address width).map LittleEndian.decode

/-- `write`: the low bytes of a value. -/
def write (address width value : Nat) (memory : GuestMemory) : Option GuestMemory :=
  memory.writeBytes address (LittleEndian.encode width value)

variable {memory memory' : GuestMemory} {address other len : Nat} {data : List UInt8}

theorem length_readBytes {bytes : List UInt8} (h : memory.readBytes address len = some bytes) :
    bytes.length = len := by
  induction memory with
  | nil => simp [readBytes] at h
  | cons range rest ih =>
      unfold readBytes at h
      by_cases hholds : range.holds address = true
      · rw [if_pos hholds] at h
        by_cases hallows : range.Allows address len false
        · rw [if_pos hallows] at h
          rw [← Option.some.inj h]
          exact length_slice (hallows.inside hholds)
        · rw [if_neg hallows] at h
          simp at h
      · rw [if_neg hholds] at h
        exact ih h

/-- A write changes no other bytes. -/
theorem readBytes_write_of_disjoint (h : memory.writeBytes address data = some memory')
    (hdisjoint : address + data.length ≤ other ∨ other + len ≤ address) :
    memory'.readBytes other len = memory.readBytes other len := by
  induction memory generalizing memory' with
  | nil => simp [writeBytes] at h
  | cons range rest ih =>
      unfold writeBytes at h
      by_cases hholds : range.holds address = true
      · rw [dif_pos hholds] at h
        by_cases hallows : range.Allows address data.length true
        · rw [dif_pos hallows] at h
          rw [← Option.some.inj h]
          unfold readBytes
          have hsame : (range.overwrite address data hholds hallows).holds other =
              range.holds other := rfl
          rw [hsame]
          by_cases hother : range.holds other = true
          · rw [if_pos hother, if_pos hother]
            by_cases hread : range.Allows other len false
            · rw [if_pos (show (range.overwrite address data hholds hallows).Allows other len
                false from hread), if_pos hread]
              have hat := of_decide_eq_true hholds
              have hatOther := of_decide_eq_true hother
              have hin := hallows.inside hholds
              have haddr : (range.overwrite address data hholds hallows).addr = range.addr := rfl
              refine congrArg some (slice_splice_disjoint hin ?_)
              omega
            · rw [if_neg (show ¬(range.overwrite address data hholds hallows).Allows other len
                false from hread), if_neg hread]
          · rw [if_neg hother, if_neg hother]
        · rw [dif_neg hallows] at h
          simp at h
      · rw [dif_neg hholds] at h
        obtain ⟨rest', hrest, hcons⟩ := Option.map_eq_some_iff.mp h
        rw [← hcons]
        unfold readBytes
        by_cases hother : range.holds other = true
        · rw [if_pos hother, if_pos hother]
        · rw [if_neg hother, if_neg hother]
          exact ih hrest

/-- What was written is read back. -/
theorem readBytes_write_self (h : memory.writeBytes address data = some memory') :
    memory'.readBytes address data.length = some data := by
  induction memory generalizing memory' with
  | nil => simp [writeBytes] at h
  | cons range rest ih =>
      unfold writeBytes at h
      by_cases hholds : range.holds address = true
      · rw [dif_pos hholds] at h
        by_cases hallows : range.Allows address data.length true
        · rw [dif_pos hallows] at h
          rw [← Option.some.inj h]
          unfold readBytes
          rw [if_pos (show (range.overwrite address data hholds hallows).holds address = true
            from hholds), if_pos]
          · exact congrArg some (slice_splice_self (hallows.inside hholds))
          · exact ⟨hallows.1, fun hw => by simp at hw, hallows.2.2⟩
        · rw [dif_neg hallows] at h
          simp at h
      · rw [dif_neg hholds] at h
        obtain ⟨rest', hrest, hcons⟩ := Option.map_eq_some_iff.mp h
        rw [← hcons]
        unfold readBytes
        rw [if_neg hholds]
        exact ih hrest

theorem read_write_of_disjoint {width size value : Nat}
    (h : memory.write address size value = some memory')
    (hdisjoint : address + size ≤ other ∨ other + width ≤ address) :
    memory'.read other width = memory.read other width := by
  unfold read
  rw [readBytes_write_of_disjoint h (by rw [LittleEndian.length_encode]; exact hdisjoint)]

end GuestMemory

end Virtio
end Riscbox

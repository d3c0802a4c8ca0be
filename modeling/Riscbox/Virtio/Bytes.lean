import Riscbox.Collections.Scatter
import Riscbox.Virtio.Memory

/-!
# Guest memory byte by byte

What the accesses of guest memory do to the byte at each address, in a map whose ranges
do not overlap.
-/

namespace Riscbox
namespace Virtio

open Slices Scatter

namespace PhysMemoryRange

/-- What the guest cannot change of a range. -/
def layout (range : PhysMemoryRange) : Nat × Nat × Bool × Bool :=
  (range.addr, range.size, range.isRam, range.isRom)

theorem holds_congr {range range' : PhysMemoryRange} (h : range'.layout = range.layout)
    (address : Nat) : range'.holds address = range.holds address := by
  unfold layout at h
  unfold holds
  rw [(Prod.mk.inj h).1, (Prod.mk.inj (Prod.mk.inj h).2).1]

theorem allows_congr {range range' : PhysMemoryRange} (h : range'.layout = range.layout)
    (address len : Nat) (write : Bool) :
    range'.Allows address len write ↔ range.Allows address len write := by
  have hfields : range'.addr = range.addr ∧ range'.size = range.size ∧
      range'.isRam = range.isRam ∧ range'.isRom = range.isRom := by
    simpa [layout] using h
  unfold Allows
  rw [hfields.1, hfields.2.1, hfields.2.2.1, hfields.2.2.2]

theorem Allows.holds_of_mem {range : PhysMemoryRange} {address len other : Nat} {write : Bool}
    (h : range.Allows address len write) (hholds : range.holds address = true)
    (hle : address ≤ other) (hlt : other < address + len) : range.holds other = true := by
  have hat := of_decide_eq_true hholds
  have hlen := h.2.2
  apply decide_eq_true
  omega

end PhysMemoryRange

namespace GuestMemory

/-- The byte that an access finds at the address. -/
def byteAt (memory : GuestMemory) (address : Nat) : Option UInt8 :=
  (memory.readBytes address 1).bind List.head?

/-- No range overlaps a RAM range behind it: the platform registers its ranges so. -/
def Separate (memory : GuestMemory) : Prop :=
  memory.Pairwise fun range range' => range'.isRam = true →
    range.addr + range.size ≤ range'.addr ∨ range'.addr + range'.size ≤ range.addr

def layout (memory : GuestMemory) : List (Nat × Nat × Bool × Bool) :=
  memory.map PhysMemoryRange.layout

variable {memory memory' : GuestMemory} {range : PhysMemoryRange} {address len : Nat}
  {data : List UInt8} {write : Bool}

theorem byteAt_cons_of_holds (hholds : range.holds address = true) :
    byteAt (range :: memory) address =
      if range.isRam = true then range.bytes[address - range.addr]? else none := by
  have hat := of_decide_eq_true hholds
  unfold byteAt readBytes
  rw [if_pos hholds]
  by_cases hram : range.isRam = true
  · have hallows : range.Allows address 1 false :=
      ⟨hram, fun hw => Bool.false_ne_true hw.1, by omega⟩
    rw [if_pos hallows, if_pos hram]
    show (slice range.bytes (address - range.addr) 1).head? = _
    rw [List.head?_eq_getElem?, getElem?_slice, if_pos Nat.one_pos, Nat.add_zero]
  · rw [if_neg fun hallows => hram hallows.1, if_neg hram]
    rfl

theorem byteAt_cons_of_not_holds (hholds : range.holds address ≠ true) :
    byteAt (range :: memory) address = memory.byteAt address := by
  unfold byteAt
  rw [readBytes, if_neg hholds]

theorem exists_of_validateRam (h : memory.validateRam address len write = true) :
    ∃ range ∈ memory, range.holds address = true ∧ range.Allows address len write := by
  induction memory with
  | nil => cases h
  | cons range rest ih =>
    unfold validateRam at h
    by_cases hholds : range.holds address = true
    · rw [if_pos hholds] at h
      exact ⟨range, List.mem_cons_self, hholds, of_decide_eq_true h⟩
    · rw [if_neg hholds] at h
      obtain ⟨r, hr, hrest⟩ := ih h
      exact ⟨r, List.mem_cons_of_mem range hr, hrest⟩

/-- An access that a range does not answer reaches no byte of it. -/
theorem Separate.not_holds {other : Nat} (hsep : Separate (range :: memory))
    (h : memory.validateRam address len write = true) (hholds : range.holds address ≠ true)
    (hle : address ≤ other) (hlt : other < address + len) : range.holds other ≠ true := by
  obtain ⟨r, hr, hrholds, hallows⟩ := exists_of_validateRam h
  have hapart := (List.pairwise_cons.mp hsep).1 r hr hallows.1
  have hother := of_decide_eq_true (hallows.holds_of_mem hrholds hle hlt)
  intro hrange
  have hat := of_decide_eq_true hrange
  omega

theorem validateRam_cons_of_holds (hholds : range.holds address = true) :
    validateRam address len write (range :: memory) =
      decide (range.Allows address len write) := by
  rw [validateRam, if_pos hholds]

theorem validateRam_cons_of_not_holds (hholds : range.holds address ≠ true) :
    validateRam address len write (range :: memory) = memory.validateRam address len write := by
  rw [validateRam, if_neg hholds]

/-- A part of an access that is allowed is allowed. -/
theorem validateRam_part (hsep : memory.Separate) {skip count : Nat} (hskip : skip < len)
    (hcount : count ≤ len - skip) (h : memory.validateRam address len write = true) :
    memory.validateRam (address + skip) count write = true := by
  induction memory with
  | nil => cases h
  | cons range rest ih =>
    by_cases hholds : range.holds address = true
    · rw [validateRam_cons_of_holds hholds] at h
      have hallows := of_decide_eq_true h
      have hpart := hallows.holds_of_mem hholds (Nat.le_add_right address skip) (by omega)
      rw [validateRam_cons_of_holds hpart]
      have hat := of_decide_eq_true hholds
      have hlen := hallows.2.2
      exact decide_eq_true ⟨hallows.1, hallows.2.1, by omega⟩
    · rw [validateRam_cons_of_not_holds hholds] at h
      have hpart := hsep.not_holds h hholds (Nat.le_add_right address skip) (by omega)
      rw [validateRam_cons_of_not_holds hpart]
      exact ih (List.pairwise_cons.mp hsep).2 h

theorem validateRam_read (h : memory.validateRam address len true = true) :
    memory.validateRam address len false = true := by
  induction memory with
  | nil => cases h
  | cons range rest ih =>
    by_cases hholds : range.holds address = true
    · rw [validateRam_cons_of_holds hholds] at h ⊢
      have hallows := of_decide_eq_true h
      exact decide_eq_true ⟨hallows.1, fun hw => Bool.false_ne_true hw.1, hallows.2.2⟩
    · rw [validateRam_cons_of_not_holds hholds] at h ⊢
      exact ih h

/-! ## Reading -/

/-- A read gives the bytes at its addresses. -/
theorem readBytes_byteAt (hsep : memory.Separate)
    (h : memory.validateRam address len false = true) :
    ∃ bytes, memory.readBytes address len = some bytes ∧
      bytes.map some = (List.range' address len).map memory.byteAt := by
  induction memory with
  | nil => cases h
  | cons range rest ih =>
    unfold readBytes
    by_cases hholds : range.holds address = true
    · rw [validateRam_cons_of_holds hholds] at h
      have hallows := of_decide_eq_true h
      have hinside := hallows.inside hholds
      have hat := of_decide_eq_true hholds
      rw [if_pos hholds, if_pos hallows]
      refine ⟨_, rfl, ?_⟩
      apply List.ext_getElem?
      intro i
      rw [List.getElem?_map, List.getElem?_map, getElem?_slice]
      by_cases hi : i < len
      · have hpart := hallows.holds_of_mem hholds (Nat.le_add_right address i) (by omega)
        rw [if_pos hi, List.getElem?_range' hi, Option.map_some, Nat.one_mul,
          byteAt_cons_of_holds hpart, if_pos hallows.1,
          show address + i - range.addr = address - range.addr + i by omega,
          List.getElem?_eq_getElem (by omega)]
        rfl
      · rw [if_neg hi, List.getElem?_eq_none (by rw [List.length_range']; omega)]
        rfl
    · rw [validateRam_cons_of_not_holds hholds] at h
      obtain ⟨bytes, hbytes, hmap⟩ := ih (List.pairwise_cons.mp hsep).2 h
      rw [if_neg hholds]
      refine ⟨bytes, hbytes, ?_⟩
      rw [hmap]
      apply List.map_congr_left
      intro other hother
      rw [List.mem_range'_1] at hother
      exact (byteAt_cons_of_not_holds (hsep.not_holds h hholds hother.1 hother.2)).symm

/-! ## Writing -/

theorem writeBytes_of_validateRam (h : memory.validateRam address data.length true = true) :
    ∃ memory', memory.writeBytes address data = some memory' := by
  induction memory with
  | nil => cases h
  | cons range rest ih =>
    unfold writeBytes
    by_cases hholds : range.holds address = true
    · rw [validateRam_cons_of_holds hholds] at h
      rw [dif_pos hholds, dif_pos (of_decide_eq_true h)]
      exact ⟨_, rfl⟩
    · rw [validateRam_cons_of_not_holds hholds] at h
      obtain ⟨rest', hrest⟩ := ih h
      rw [dif_neg hholds, hrest]
      exact ⟨_, rfl⟩

/-- A write keeps the layout of the map. -/
theorem writeBytes_layout (h : memory.writeBytes address data = some memory') :
    memory'.layout = memory.layout := by
  induction memory generalizing memory' with
  | nil => cases h
  | cons range rest ih =>
    unfold writeBytes at h
    by_cases hholds : range.holds address = true
    · rw [dif_pos hholds] at h
      by_cases hallows : range.Allows address data.length true
      · rw [dif_pos hallows] at h
        rw [← Option.some.inj h]
        rfl
      · rw [dif_neg hallows] at h
        cases h
    · rw [dif_neg hholds] at h
      obtain ⟨rest', hrest, hcons⟩ := Option.map_eq_some_iff.mp h
      rw [← hcons]
      exact congrArg (range.layout :: ·) (ih hrest)

theorem validateRam_congr (h : memory'.layout = memory.layout) (address len : Nat)
    (write : Bool) : memory'.validateRam address len write =
      memory.validateRam address len write := by
  induction memory generalizing memory' with
  | nil =>
    cases memory' with
    | nil => rfl
    | cons range' rest' => cases h
  | cons range rest ih =>
    cases memory' with
    | nil => cases h
    | cons range' rest' =>
      have hhead : range'.layout = range.layout := (List.cons.inj h).1
      have hsame := PhysMemoryRange.holds_congr hhead address
      by_cases hholds : range.holds address = true
      · rw [validateRam_cons_of_holds hholds, validateRam_cons_of_holds (hsame.trans hholds)]
        exact decide_eq_decide.mpr (PhysMemoryRange.allows_congr hhead address len write)
      · rw [validateRam_cons_of_not_holds hholds,
          validateRam_cons_of_not_holds (fun h' => hholds (hsame.symm.trans h'))]
        exact ih (List.cons.inj h).2

theorem Separate.congr (hsep : memory.Separate) (h : memory'.layout = memory.layout) :
    memory'.Separate := by
  have hmap : ∀ m : GuestMemory, m.Separate ↔ m.layout.Pairwise fun r r' => r'.2.2.1 = true →
      r.1 + r.2.1 ≤ r'.1 ∨ r'.1 + r'.2.1 ≤ r.1 := by
    intro m
    unfold Separate layout
    rw [List.pairwise_map]
    rfl
  rw [hmap, h, ← hmap]
  exact hsep

theorem validateRam_of_writeBytes (h : memory.writeBytes address data = some memory') :
    memory.validateRam address data.length true = true := by
  induction memory generalizing memory' with
  | nil => cases h
  | cons range rest ih =>
    unfold writeBytes at h
    by_cases hholds : range.holds address = true
    · rw [dif_pos hholds] at h
      by_cases hallows : range.Allows address data.length true
      · rw [validateRam_cons_of_holds hholds]
        exact decide_eq_true hallows
      · rw [dif_neg hallows] at h
        cases h
    · rw [dif_neg hholds] at h
      obtain ⟨rest', hrest, -⟩ := Option.map_eq_some_iff.mp h
      rw [validateRam_cons_of_not_holds hholds]
      exact ih hrest

/-- A write stores its bytes at its addresses, and nothing else. -/
theorem writeBytes_byteAt (hsep : memory.Separate)
    (h : memory.writeBytes address data = some memory') :
    memory'.byteAt =
      poke memory.byteAt (List.range' address data.length) (data.map some) := by
  have hlength : (data.map some).length = data.length := List.length_map some
  funext other
  induction memory generalizing memory' with
  | nil => cases h
  | cons range rest ih =>
    have hvalid := validateRam_of_writeBytes h
    unfold writeBytes at h
    by_cases hholds : range.holds address = true
    · rw [validateRam_cons_of_holds hholds] at hvalid
      have hallows := of_decide_eq_true hvalid
      have hinside := hallows.inside hholds
      have hat := of_decide_eq_true hholds
      rw [dif_pos hholds, dif_pos hallows] at h
      rw [← Option.some.inj h]
      have hsame : (range.overwrite address data hholds hallows).holds other =
          range.holds other := rfl
      by_cases hblock : address ≤ other ∧ other < address + data.length
      · have hother := hallows.holds_of_mem hholds hblock.1 hblock.2
        have hpoke : some (poke (byteAt (range :: rest)) (List.range' address data.length)
            (data.map some) other) = (data.map some)[other - address]? := by
          rw [← hlength]
          exact poke_range' hblock.1 (by rw [hlength]; exact hblock.2)
        have hram : (range.overwrite address data hholds hallows).isRam = true := hallows.1
        rw [byteAt_cons_of_holds (hsame.trans hother), if_pos hram]
        show (splice range.bytes (address - range.addr) data)[other - range.addr]? = _
        rw [getElem?_splice hinside, if_pos (by omega),
          show other - range.addr - (address - range.addr) = other - address by omega]
        rw [List.getElem?_map, List.getElem?_eq_getElem (by omega)] at hpoke
        rw [List.getElem?_eq_getElem (by omega)]
        exact (Option.some.inj hpoke).symm
      · have hnot : other ∉ List.range' address data.length := by
          rw [List.mem_range'_1]
          exact hblock
        rw [poke_of_not_mem hnot]
        by_cases hother : range.holds other = true
        · have hat' := of_decide_eq_true hother
          rw [byteAt_cons_of_holds (hsame.trans hother), byteAt_cons_of_holds hother]
          by_cases hram : range.isRam = true
          · rw [if_pos hram]
            show (if range.isRam = true then (splice range.bytes (address - range.addr)
              data)[other - range.addr]? else none) = _
            rw [if_pos hram, getElem?_splice hinside, if_neg (by omega)]
          · exact absurd hallows.1 hram
        · rw [byteAt_cons_of_not_holds hother,
            byteAt_cons_of_not_holds fun h' => hother (hsame.symm.trans h')]
    · rw [validateRam_cons_of_not_holds hholds] at hvalid
      rw [dif_neg hholds] at h
      obtain ⟨rest', hrest, hcons⟩ := Option.map_eq_some_iff.mp h
      rw [← hcons]
      by_cases hother : range.holds other = true
      · have hnot : other ∉ List.range' address data.length := by
          rw [List.mem_range'_1]
          intro hblock
          exact hsep.not_holds hvalid hholds hblock.1 hblock.2 hother
        rw [byteAt_cons_of_holds hother, poke_of_not_mem hnot, byteAt_cons_of_holds hother]
      · rw [byteAt_cons_of_not_holds hother, ih (List.pairwise_cons.mp hsep).2 hrest]
        exact poke_congr (byteAt_cons_of_not_holds hother).symm _ _

end GuestMemory

end Virtio
end Riscbox

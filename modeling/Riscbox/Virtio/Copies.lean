import Riscbox.Virtio.Memory

/-!
# Pieces of data in guest memory

Pieces that are copied to their addresses one after the other.  Pieces that lie apart
are all there in the end, and the rest of the memory is as it was.
-/

namespace Riscbox
namespace Virtio
namespace GuestMemory

open Slices

/-- An address, and the bytes to be there. -/
abbrev Piece : Type := Nat × List UInt8

namespace Piece

def stop (piece : Piece) : Nat := piece.1 + piece.2.length

def Apart (piece other : Piece) : Prop := piece.stop ≤ other.1 ∨ other.stop ≤ piece.1

/-- A range of addresses that the piece does not meet. -/
def Misses (piece : Piece) (address len : Nat) : Prop :=
  piece.stop ≤ address ∨ address + len ≤ piece.1

end Piece

/-- The ranges of a memory, without what they hold. -/
def ranges (memory : GuestMemory) : List (Nat × Nat × Bool × Bool) :=
  memory.map fun pr => (pr.addr, pr.size, pr.isRam, pr.isRom)

def writeAll : List Piece → GuestMemory → Option GuestMemory
  | [], memory => some memory
  | piece :: rest, memory => (memory.writeBytes piece.1 piece.2).bind (writeAll rest)

variable {memory memory' : GuestMemory} {address len : Nat} {data : List UInt8}
  {piece : Piece} {pieces : List Piece}

theorem ranges_writeBytes (h : memory.writeBytes address data = some memory') :
    memory'.ranges = memory.ranges := by
  induction memory generalizing memory' with
  | nil => cases h
  | cons range rest ih =>
    unfold writeBytes at h
    by_cases hholds : range.holds address = true
    · rw [dif_pos hholds] at h
      by_cases hallows : range.Allows address data.length true
      · rw [dif_pos hallows] at h
        cases h
        rfl
      · rw [dif_neg hallows] at h
        cases h
    · rw [dif_neg hholds] at h
      obtain ⟨rest', hrest, rfl⟩ := Option.map_eq_some_iff.mp h
      show _ :: ranges rest' = _ :: ranges rest
      rw [ih hrest]

theorem writeAll_cons (h : memory.writeAll (piece :: pieces) = some memory') :
    ∃ between, memory.writeBytes piece.1 piece.2 = some between ∧
      between.writeAll pieces = some memory' :=
  Option.bind_eq_some_iff.mp h

theorem ranges_writeAll (h : memory.writeAll pieces = some memory') :
    memory'.ranges = memory.ranges := by
  induction pieces generalizing memory with
  | nil =>
    cases h
    rfl
  | cons piece pieces ih =>
    obtain ⟨between, hpiece, hrest⟩ := writeAll_cons h
    exact (ih hrest).trans (ranges_writeBytes hpiece)

/-- What no piece meets is left alone. -/
theorem readBytes_writeAll_of_missed (h : memory.writeAll pieces = some memory')
    (hmissed : ∀ piece ∈ pieces, piece.Misses address len) :
    memory'.readBytes address len = memory.readBytes address len := by
  induction pieces generalizing memory with
  | nil =>
    cases h
    rfl
  | cons piece pieces ih =>
    obtain ⟨between, hpiece, hrest⟩ := writeAll_cons h
    rw [ih hrest fun other hother => hmissed other (List.mem_cons_of_mem _ hother)]
    exact readBytes_write_of_disjoint hpiece (hmissed piece List.mem_cons_self)

/-- Pieces that lie apart are all there. -/
theorem readBytes_writeAll (h : memory.writeAll pieces = some memory')
    (hapart : pieces.Pairwise Piece.Apart) (hmem : piece ∈ pieces) :
    memory'.readBytes piece.1 piece.2.length = some piece.2 := by
  induction pieces generalizing memory with
  | nil => exact absurd hmem List.not_mem_nil
  | cons first pieces ih =>
    obtain ⟨between, hfirst, hrest⟩ := writeAll_cons h
    obtain ⟨hapartFirst, hapart⟩ := List.pairwise_cons.mp hapart
    rcases List.mem_cons.mp hmem with rfl | hmem
    · rw [readBytes_writeAll_of_missed hrest fun other hother => (hapartFirst other hother).symm]
      exact readBytes_write_self hfirst
    · exact ih hrest hapart hmem

/-- A RAM range that answers for the addresses from `base` to `stop`. -/
def RamAt (memory : GuestMemory) (base stop : Nat) : Prop :=
  ∃ before after size,
    memory.ranges = before ++ (base, size, true, false) :: after ∧ base + size = stop ∧
      ∀ entry ∈ before, entry.1 + entry.2.1 ≤ base ∨ stop ≤ entry.1

theorem RamAt.of_ranges {base stop : Nat} (h : memory.RamAt base stop)
    (hranges : memory'.ranges = memory.ranges) : memory'.RamAt base stop := by
  unfold RamAt
  rw [hranges]
  exact h

/-- An access that such a range holds succeeds. -/
theorem RamAt.access {base stop : Nat} (h : memory.RamAt base stop) (hbase : base ≤ address)
    (hstop : address < stop) :
    ∃ content : List UInt8, base + content.length = stop ∧
      (∀ other len, base ≤ other → other < stop → other + len ≤ stop →
        memory.readBytes other len = some (slice content (other - base) len)) ∧
      ∀ data : List UInt8, address + data.length ≤ stop →
        ∃ memory', memory.writeBytes address data = some memory' := by
  obtain ⟨before, after, size, hranges, hsize, hbefore⟩ := h
  induction memory generalizing before with
  | nil => cases before <;> cases hranges
  | cons range rest ih =>
    cases before with
    | nil =>
      have hentry := (List.cons.inj hranges).1
      simp only [Prod.mk.injEq] at hentry
      obtain ⟨haddr, hrangeSize, hram, hrom⟩ := hentry
      have hholds : ∀ other, base ≤ other → other < stop → range.holds other = true := by
        intro other hother hotherStop
        unfold PhysMemoryRange.holds
        rw [decide_eq_true_iff]
        omega
      refine ⟨range.bytes, ?_, ?_, ?_⟩
      · rw [range.length_eq hram, hrangeSize, hsize]
      · intro other len hother hotherStop hend
        have hallows : range.Allows other len false := by
          refine ⟨hram, fun hwrite => absurd hwrite.1 (by decide), ?_⟩
          omega
        unfold readBytes
        rw [if_pos (hholds other hother hotherStop), if_pos hallows, haddr]
      · intro data hend
        have hallows : range.Allows address data.length true := by
          refine ⟨hram, fun hwrite => ?_, ?_⟩
          · rw [hrom] at hwrite
            exact absurd hwrite.2 (by decide)
          · omega
        unfold writeBytes
        rw [dif_pos (hholds address hbase hstop), dif_pos hallows]
        exact ⟨_, rfl⟩
    | cons entry before =>
      have hentry := (List.cons.inj hranges).1
      have hapart : range.addr + range.size ≤ base ∨ stop ≤ range.addr := by
        have hentryApart := hbefore entry List.mem_cons_self
        rw [← hentry] at hentryApart
        exact hentryApart
      have hholds : ∀ other, base ≤ other → other < stop → ¬range.holds other = true := by
        intro other hother hotherStop
        unfold PhysMemoryRange.holds
        rw [decide_eq_true_iff]
        omega
      obtain ⟨content, hlength, hread, hwrite⟩ := ih before (List.cons.inj hranges).2
        fun entry hmem => hbefore entry (List.mem_cons_of_mem _ hmem)
      refine ⟨content, hlength, ?_, ?_⟩
      · intro other len hother hotherStop hend
        unfold readBytes
        rw [if_neg (hholds other hother hotherStop)]
        exact hread other len hother hotherStop hend
      · intro data hend
        obtain ⟨rest', hrest⟩ := hwrite data hend
        unfold writeBytes
        rw [dif_neg (hholds address hbase hstop), hrest]
        exact ⟨_, rfl⟩

theorem RamAt.writeBytes {base stop : Nat} (h : memory.RamAt base stop) (hbase : base ≤ address)
    (hstop : address < stop) (hend : address + data.length ≤ stop) :
    ∃ memory', memory.writeBytes address data = some memory' := by
  obtain ⟨-, -, -, hwrite⟩ := h.access hbase hstop
  exact hwrite data hend

/-- The piece lies in a RAM range, from an address of its own on. -/
def Fits (memory : GuestMemory) (piece : Piece) : Prop :=
  ∃ base stop, memory.RamAt base stop ∧ base ≤ piece.1 ∧ piece.1 < stop ∧ piece.stop ≤ stop

theorem Fits.of_ranges (h : memory.Fits piece) (hranges : memory'.ranges = memory.ranges) :
    memory'.Fits piece := by
  obtain ⟨base, stop, hram, hinside⟩ := h
  exact ⟨base, stop, hram.of_ranges hranges, hinside⟩

/-- Pieces that fit can all be written. -/
theorem writeAll_of_fits (h : ∀ piece ∈ pieces, memory.Fits piece) :
    ∃ memory', memory.writeAll pieces = some memory' := by
  induction pieces generalizing memory with
  | nil => exact ⟨memory, rfl⟩
  | cons piece pieces ih =>
    obtain ⟨base, stop, hram, hbase, hstop, hend⟩ := h piece List.mem_cons_self
    obtain ⟨between, hbetween⟩ := hram.writeBytes hbase hstop hend
    obtain ⟨memory', hrest⟩ := ih fun other hother =>
      (h other (List.mem_cons_of_mem _ hother)).of_ranges (ranges_writeBytes hbetween)
    refine ⟨memory', ?_⟩
    rw [writeAll, hbetween]
    exact hrest

theorem writeAll_append {more : List Piece} (h : memory.writeAll (pieces ++ more) = some memory') :
    ∃ between, memory.writeAll pieces = some between ∧ between.writeAll more = some memory' := by
  induction pieces generalizing memory with
  | nil => exact ⟨memory, rfl, h⟩
  | cons piece pieces ih =>
    obtain ⟨first, hfirst, hrest⟩ := writeAll_cons h
    obtain ⟨between, hbetween, hmore⟩ := ih hrest
    refine ⟨between, ?_, hmore⟩
    rw [writeAll, hfirst]
    exact hbetween

/-- A read inside bytes that were read. -/
theorem RamAt.readBytes_inside {base stop offset width : Nat} {bytes : List UInt8}
    (h : memory.RamAt base stop) (hbase : base ≤ address) (hstop : address + len ≤ stop)
    (hread : memory.readBytes address len = some bytes) (hinside : offset + width ≤ len)
    (hwidth : 0 < width) :
    memory.readBytes (address + offset) width = some (slice bytes offset width) := by
  obtain ⟨content, hlength, hreads, -⟩ := h.access hbase (by omega)
  rw [hreads address len hbase (by omega) hstop] at hread
  rw [hreads (address + offset) width (by omega) (by omega) (by omega), ← Option.some.inj hread]
  congr 1
  apply List.ext_getElem?
  intro i
  simp only [getElem?_slice]
  by_cases hi : i < width
  · rw [if_pos hi, if_pos hi, if_pos (by omega)]
    congr 1
    omega
  · rw [if_neg hi, if_neg hi]

end GuestMemory

end Virtio
end Riscbox

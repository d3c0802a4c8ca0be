import Mathlib.Data.List.Basic
import Mathlib.Data.List.Nodup

/-!
# Tables of terminated strings

Names one after another, each with a zero byte behind it.  A name without a zero byte is
found at its offset, and two names of the table never share one.
-/

namespace Riscbox
namespace StringTable

abbrev Name := List UInt8

/-- The bytes of a table. -/
def flat (names : List Name) : List UInt8 := names.flatMap fun name => name ++ [0]

/-- Where a name is in the table, or would be appended to it. -/
def offset : List Name → Name → Nat
  | [], _ => 0
  | first :: rest, name => if first = name then 0 else first.length + 1 + offset rest name

/-- The table with a name in it. -/
def add (names : List Name) (name : Name) : List Name :=
  if name ∈ names then names else names ++ [name]

/-- The bytes up to the next zero. -/
def entryAt (table : List UInt8) (start : Nat) : Name :=
  (table.drop start).takeWhile (· ≠ 0)

/-- The name that a reader finds at an offset. -/
def nameAt (table : List UInt8) (start : Nat) : Option Name :=
  if start + (entryAt table start).length < table.length then some (entryAt table start)
  else none

variable {names more : List Name} {name other : Name}

@[simp] theorem flat_nil : flat [] = [] := rfl

@[simp] theorem flat_cons (first : Name) (rest : List Name) :
    flat (first :: rest) = first ++ 0 :: flat rest := by
  simp [flat]

@[simp] theorem flat_append (names more : List Name) :
    flat (names ++ more) = flat names ++ flat more := List.flatMap_append

/-- A name without a zero byte ends at the first zero byte. -/
theorem takeWhile_terminated (hname : (0 : UInt8) ∉ name) (rest : List UInt8) :
    (name ++ 0 :: rest).takeWhile (· ≠ 0) = name := by
  induction name with
  | nil => rfl
  | cons byte name ih =>
    obtain ⟨hbyte, hname⟩ := not_or.mp fun h => hname (List.mem_cons.mpr h)
    rw [List.cons_append, List.takeWhile_cons, if_pos (by simpa using Ne.symm hbyte), ih hname]

theorem add_of_mem (h : name ∈ names) : add names name = names := if_pos h

theorem add_of_not_mem (h : name ∉ names) : add names name = names ++ [name] := if_neg h

theorem mem_add : other ∈ add names name ↔ other ∈ names ∨ other = name := by
  by_cases h : name ∈ names
  · rw [add_of_mem h]
    constructor
    · exact .inl
    · rintro (hmem | rfl)
      · exact hmem
      · exact h
  · rw [add_of_not_mem h, List.mem_append, List.mem_singleton]

theorem nodup_add (h : names.Nodup) : (add names name).Nodup := by
  by_cases hmem : name ∈ names
  · rw [add_of_mem hmem]
    exact h
  · rw [add_of_not_mem hmem]
    rw [← List.concat_eq_append]
    exact h.concat hmem

theorem prefix_add (names : List Name) (name : Name) : names <+: add names name := by
  unfold add
  split
  · exact List.prefix_rfl
  · exact List.prefix_append _ _

theorem offset_le (names : List Name) (name : Name) : offset names name ≤ (flat names).length := by
  induction names with
  | nil => exact Nat.le_refl _
  | cons first rest ih =>
    rw [flat_cons, List.length_append, List.length_cons, offset]
    split <;> omega

theorem offset_append (h : name ∈ names) (more : List Name) :
    offset (names ++ more) name = offset names name := by
  induction names with
  | nil => exact absurd h List.not_mem_nil
  | cons first rest ih =>
    rw [List.cons_append, offset, offset]
    by_cases hfirst : first = name
    · rw [if_pos hfirst, if_pos hfirst]
    · have hrest : name ∈ rest := (List.mem_cons.mp h).resolve_left fun heq => hfirst heq.symm
      rw [if_neg hfirst, if_neg hfirst, ih hrest]

theorem offset_of_prefix (hfront : names <+: more) (h : name ∈ names) :
    offset more name = offset names name := by
  obtain ⟨rest, rfl⟩ := hfront
  exact offset_append h rest

/-- A new name is appended. -/
theorem offset_of_not_mem (h : name ∉ names) : offset names name = (flat names).length := by
  induction names with
  | nil => rfl
  | cons first rest ih =>
    obtain ⟨hfirst, hrest⟩ := not_or.mp fun hmem => h (List.mem_cons.mpr hmem)
    rw [offset, if_neg (Ne.symm hfirst), ih hrest, flat_cons, List.length_append,
      List.length_cons]
    omega

theorem offset_add (names : List Name) (name : Name) :
    offset (add names name) name = offset names name := by
  by_cases h : name ∈ names
  · rw [add_of_mem h]
  · rw [add_of_not_mem h]
    induction names with
    | nil =>
      exact if_pos rfl
    | cons first rest ih =>
      obtain ⟨hfirst, hrest⟩ := not_or.mp fun hmem => h (List.mem_cons.mpr hmem)
      rw [List.cons_append, offset, if_neg (Ne.symm hfirst), ih hrest, offset,
        if_neg (Ne.symm hfirst)]

/-- At its offset the table holds the name and its zero byte. -/
theorem drop_offset (h : name ∈ names) :
    ∃ rest, (flat names).drop (offset names name) = name ++ 0 :: rest := by
  induction names with
  | nil => exact absurd h List.not_mem_nil
  | cons first more ih =>
    rw [flat_cons, offset]
    by_cases hfirst : first = name
    · rw [if_pos hfirst, hfirst]
      exact ⟨flat more, rfl⟩
    · have hmore : name ∈ more := (List.mem_cons.mp h).resolve_left fun heq => hfirst heq.symm
      obtain ⟨rest, hrest⟩ := ih hmore
      refine ⟨rest, ?_⟩
      have hsplit : first ++ 0 :: flat more = (first ++ [0]) ++ flat more := by simp
      have hlength : first.length + 1 = (first ++ [0]).length := by simp
      rw [if_neg hfirst, hsplit, hlength, List.drop_length_add_append, hrest]

theorem entryAt_offset (hname : (0 : UInt8) ∉ name) (h : name ∈ names) :
    entryAt (flat names) (offset names name) = name := by
  obtain ⟨rest, hrest⟩ := drop_offset h
  unfold entryAt
  rw [hrest, takeWhile_terminated hname]

/-- What is read at the offset of a name is the name. -/
theorem nameAt_offset (hname : (0 : UInt8) ∉ name) (h : name ∈ names) :
    nameAt (flat names) (offset names name) = some name := by
  obtain ⟨rest, hrest⟩ := drop_offset h
  have hlength := congrArg List.length hrest
  rw [List.length_drop, List.length_append, List.length_cons] at hlength
  unfold nameAt
  rw [entryAt_offset hname h, if_pos (by omega)]

/-- Different names never share an offset. -/
theorem offset_inj (hname : (0 : UInt8) ∉ name) (hother : (0 : UInt8) ∉ other)
    (hmem : name ∈ names) (hmem' : other ∈ names)
    (h : offset names name = offset names other) : name = other := by
  rw [← entryAt_offset hname hmem, h, entryAt_offset hother hmem']

end StringTable
end Riscbox

import Mathlib

/-!
# Windows of a list

A window of a list is read by `slice` and overwritten by `splice`.
-/

namespace Riscbox.Slices

variable {α : Type}

/-- The `length` elements from `offset` on. -/
def slice (xs : List α) (offset length : Nat) : List α := (xs.drop offset).take length

/-- `xs` with `ys` written over it from `offset` on. -/
def splice (xs : List α) (offset : Nat) (ys : List α) : List α :=
  xs.take offset ++ ys ++ xs.drop (offset + ys.length)

theorem length_slice {xs : List α} {offset length : Nat} (h : offset + length ≤ xs.length) :
    (slice xs offset length).length = length := by
  rw [slice, List.length_take, List.length_drop]
  omega

theorem length_splice {xs ys : List α} {offset : Nat} (h : offset + ys.length ≤ xs.length) :
    (splice xs offset ys).length = xs.length := by
  simp only [splice, List.length_append, List.length_take, List.length_drop]
  omega

theorem getElem?_slice {xs : List α} {offset length i : Nat} :
    (slice xs offset length)[i]? = if i < length then xs[offset + i]? else none := by
  rw [slice, List.getElem?_take, List.getElem?_drop]

theorem getElem?_splice {xs ys : List α} {offset i : Nat}
    (h : offset + ys.length ≤ xs.length) :
    (splice xs offset ys)[i]? =
      if offset ≤ i ∧ i < offset + ys.length then ys[i - offset]? else xs[i]? := by
  have hlen : (xs.take offset).length = offset := by
    rw [List.length_take]
    omega
  unfold splice
  rcases Nat.lt_or_ge i offset with hlt | hge
  · rw [if_neg (by omega), List.append_assoc, List.getElem?_append_left (by omega),
      List.getElem?_take, if_pos hlt]
  · rcases Nat.lt_or_ge i (offset + ys.length) with hmid | hafter
    · rw [if_pos ⟨hge, hmid⟩, List.append_assoc, List.getElem?_append_right (by omega), hlen,
        List.getElem?_append_left (by omega)]
    · rw [if_neg (by omega), List.getElem?_append_right (by rw [List.length_append]; omega),
        List.getElem?_drop, List.length_append, hlen]
      congr 1
      omega

theorem slice_splice_self {xs ys : List α} {offset : Nat}
    (h : offset + ys.length ≤ xs.length) : slice (splice xs offset ys) offset ys.length = ys := by
  apply List.ext_getElem?
  intro i
  rw [getElem?_slice, getElem?_splice h]
  by_cases hi : i < ys.length
  · rw [if_pos hi, if_pos (by omega)]
    congr 1
    omega
  · rw [if_neg hi, List.getElem?_eq_none (by omega)]

/-- A write leaves the windows that it does not meet alone. -/
theorem slice_splice_disjoint {xs ys : List α} {offset at' length : Nat}
    (h : offset + ys.length ≤ xs.length)
    (hdisjoint : at' + length ≤ offset ∨ offset + ys.length ≤ at') :
    slice (splice xs offset ys) at' length = slice xs at' length := by
  apply List.ext_getElem?
  intro i
  rw [getElem?_slice, getElem?_slice]
  by_cases hi : i < length
  · rw [if_pos hi, if_pos hi, getElem?_splice h, if_neg (by omega)]
  · rw [if_neg hi, if_neg hi]

end Riscbox.Slices

import Mathlib

/-!
# Ordered maps and sets

`Std.ExtTreeMap` and `Std.ExtTreeSet` under the names of the ordered maps and
sets they stand for, with their lookup lemmas stated by equality of keys, and
the totals that a program keeps beside such a map.  A total is a sum over the
stored pairs, and inserting or erasing a key changes it by that key's summand.
-/

set_option linter.unusedSectionVars false

namespace Riscbox

open Std

/-- An ordered map with unique keys, iterated in key order. -/
abbrev BTreeMap (κ υ : Type) [Ord κ] : Type := ExtTreeMap κ υ compare

/-- An ordered set. -/
abbrev BTreeSet (κ : Type) [Ord κ] : Type := ExtTreeSet κ compare

/-! ## Pairs as keys -/

/-- Pairs are ordered by their first component, then by their second. -/
instance pairOrd {α β : Type} [Ord α] [Ord β] : Ord (α × β) :=
  ⟨compareLex (compareOn Prod.fst) (compareOn Prod.snd)⟩

instance pairTransOrd {α β : Type} [Ord α] [Ord β] [TransOrd α] [TransOrd β] :
    TransOrd (α × β) :=
  inferInstanceAs (TransCmp (compareLex (compareOn Prod.fst) (compareOn Prod.snd)))

instance pairLawfulEqOrd {α β : Type} [Ord α] [Ord β] [LawfulEqOrd α] [LawfulEqOrd β] :
    LawfulEqOrd (α × β) where
  compare_self := by
    intro a
    simp [compare, compareLex, compareOn]
  eq_of_compare := by
    intro a b h
    simp only [compare, compareLex, Ordering.then_eq_eq, compareOn] at h
    exact Prod.ext (LawfulEqCmp.eq_of_compare h.1) (LawfulEqCmp.eq_of_compare h.2)

namespace BTreeMap

variable {κ υ : Type} [Ord κ] [TransOrd κ] [LawfulEqOrd κ] [DecidableEq κ]

theorem get_insert (m : BTreeMap κ υ) (k a : κ) (v : υ) :
    (m.insert k v)[a]? = if k = a then some v else m[a]? := by
  rw [ExtTreeMap.getElem?_insert]
  by_cases h : k = a
  · subst h
    simp
  · have hc : compare k a ≠ .eq := fun hc => h (LawfulEqCmp.eq_of_compare hc)
    simp [h, hc]

theorem get_erase (m : BTreeMap κ υ) (k a : κ) :
    (m.erase k)[a]? = if k = a then none else m[a]? := by
  rw [ExtTreeMap.getElem?_erase]
  by_cases h : k = a
  · subst h
    simp
  · have hc : compare k a ≠ .eq := fun hc => h (LawfulEqCmp.eq_of_compare hc)
    simp [h, hc]

theorem get_insert_of_ne (m : BTreeMap κ υ) {k a : κ} (v : υ) (h : k ≠ a) :
    (m.insert k v)[a]? = m[a]? := by
  rw [get_insert, if_neg h]

theorem get_erase_of_ne (m : BTreeMap κ υ) {k a : κ} (h : k ≠ a) :
    (m.erase k)[a]? = m[a]? := by
  rw [get_erase, if_neg h]

theorem contains_eq_isSome (m : BTreeMap κ υ) (k : κ) : m.contains k = m[k]?.isSome :=
  ExtTreeMap.contains_eq_isSome_getElem?

theorem ext {m n : BTreeMap κ υ} (h : ∀ k : κ, m[k]? = n[k]?) : m = n :=
  ExtTreeMap.ext_getElem? h

theorem erase_of_not_mem {m : BTreeMap κ υ} {k : κ} (h : m[k]? = none) : m.erase k = m := by
  apply ext
  intro a
  rw [get_erase]
  by_cases hk : k = a
  · subst hk
    simp [h]
  · simp [hk]

theorem erase_insert (m : BTreeMap κ υ) (k : κ) (v : υ) :
    (m.insert k v).erase k = m.erase k := by
  apply ext
  intro a
  rw [get_erase, get_erase, get_insert]
  by_cases hk : k = a <;> simp [hk]

theorem insert_erase (m : BTreeMap κ υ) (k : κ) (v : υ) :
    (m.erase k).insert k v = m.insert k v := by
  apply ext
  intro a
  rw [get_insert, get_insert, get_erase]
  by_cases hk : k = a <;> simp [hk]

theorem insert_same {m : BTreeMap κ υ} {k : κ} {v : υ} (h : m[k]? = some v) :
    m.insert k v = m := by
  apply ext
  intro a
  rw [get_insert]
  by_cases hk : k = a
  · subst hk
    simp [h]
  · simp [hk]

/-! ## Sizes -/

theorem size_insert_of_none {m : BTreeMap κ υ} {k : κ} (v : υ) (h : m[k]? = none) :
    (m.insert k v).size = m.size + 1 := by
  rw [ExtTreeMap.size_insert, contains_eq_isSome, h]
  rfl

theorem size_insert_of_some {m : BTreeMap κ υ} {k : κ} {w : υ} (v : υ) (h : m[k]? = some w) :
    (m.insert k v).size = m.size := by
  rw [ExtTreeMap.size_insert, contains_eq_isSome, h]
  rfl

theorem size_erase_of_some {m : BTreeMap κ υ} {k : κ} {w : υ} (h : m[k]? = some w) :
    (m.erase k).size = m.size - 1 := by
  rw [ExtTreeMap.size_erase, contains_eq_isSome, h]
  rfl

theorem size_pos_of_some {m : BTreeMap κ υ} {k : κ} {w : υ} (h : m[k]? = some w) :
    0 < m.size := by
  rcases Nat.eq_zero_or_pos m.size with h0 | hpos
  · rw [← ExtTreeMap.eq_empty_iff_size_eq_zero] at h0
    subst h0
    simp at h
  · exact hpos

theorem mem_toList {m : BTreeMap κ υ} {k : κ} {v : υ} : (k, v) ∈ m.toList ↔ m[k]? = some v :=
  ExtTreeMap.mem_toList_iff_getElem?_eq_some

theorem nodup_keys (m : BTreeMap κ υ) : (m.toList.map Prod.fst).Nodup := by
  rw [List.nodup_iff_pairwise_ne, List.pairwise_map]
  refine (ExtTreeMap.distinct_keys_toList (t := m)).imp ?_
  intro a b hab he
  exact hab (by rw [he]; exact ReflCmp.compare_self)

theorem nodup_toList (m : BTreeMap κ υ) : m.toList.Nodup := List.Nodup.of_map _ (nodup_keys m)

/-- Distinct stored keys are no more than the size of the map. -/
theorem length_le_size {m : BTreeMap κ υ} {ks : List κ} (hnd : ks.Nodup)
    (hks : ∀ k ∈ ks, m[k]? ≠ none) : ks.length ≤ m.size := by
  have hsub : ks ⊆ m.toList.map Prod.fst := by
    intro k hk
    obtain ⟨v, hv⟩ := Option.ne_none_iff_exists'.mp (hks k hk)
    exact List.mem_map.mpr ⟨(k, v), mem_toList.mpr hv, rfl⟩
  have hle := (List.subperm_of_subset hnd hsub).length_le
  rwa [List.length_map, ExtTreeMap.length_toList] at hle

/-! ## Totals -/

/-- The sum of `f` over the stored pairs. -/
def total (f : κ → υ → Nat) (m : BTreeMap κ υ) : Nat :=
  (m.toList.map fun p => f p.1 p.2).sum

@[simp] theorem total_empty (f : κ → υ → Nat) : total f (∅ : BTreeMap κ υ) = 0 := by
  have h : (∅ : BTreeMap κ υ).toList = [] := ExtTreeMap.toList_eq_nil_iff.mpr rfl
  rw [total, h]
  rfl

theorem toList_perm {m : BTreeMap κ υ} {k : κ} {v : υ} (h : m[k]? = some v) :
    m.toList.Perm ((k, v) :: (m.erase k).toList) := by
  have hnot : (k, v) ∉ (m.erase k).toList := by
    rw [mem_toList, get_erase]
    simp
  refine (List.perm_ext_iff_of_nodup (nodup_toList m)
    (List.nodup_cons.mpr ⟨hnot, nodup_toList _⟩)).mpr ?_
  rintro ⟨a, w⟩
  rw [List.mem_cons, mem_toList, mem_toList, get_erase]
  by_cases hk : k = a
  · subst hk
    rw [h]
    simp [eq_comm]
  · simp [hk, Ne.symm hk]

/-- A stored pair contributes its summand. -/
theorem total_of_some (f : κ → υ → Nat) {m : BTreeMap κ υ} {k : κ} {v : υ}
    (h : m[k]? = some v) : total f m = f k v + total f (m.erase k) := by
  rw [total, ((toList_perm h).map _).sum_eq, List.map_cons, List.sum_cons]
  rfl

theorem total_insert (f : κ → υ → Nat) (m : BTreeMap κ υ) (k : κ) (v : υ) :
    total f (m.insert k v) = f k v + total f (m.erase k) := by
  rw [total_of_some f (m := m.insert k v) (k := k) (v := v) (by rw [get_insert, if_pos rfl]),
    erase_insert]

theorem total_insert_of_none (f : κ → υ → Nat) {m : BTreeMap κ υ} {k : κ} (v : υ)
    (h : m[k]? = none) : total f (m.insert k v) = f k v + total f m := by
  rw [total_insert, erase_of_not_mem h]

/-- Replacing a stored value exchanges its summand. -/
theorem total_insert_of_some (f : κ → υ → Nat) {m : BTreeMap κ υ} {k : κ} {w : υ} (v : υ)
    (h : m[k]? = some w) : total f (m.insert k v) + f k w = total f m + f k v := by
  rw [total_insert, total_of_some f h]
  omega

theorem total_erase_of_some (f : κ → υ → Nat) {m : BTreeMap κ υ} {k : κ} {w : υ}
    (h : m[k]? = some w) : total f (m.erase k) + f k w = total f m := by
  rw [total_of_some f h]
  omega

theorem le_total (f : κ → υ → Nat) {m : BTreeMap κ υ} {k : κ} {v : υ}
    (h : m[k]? = some v) : f k v ≤ total f m := by
  rw [total_of_some f h]
  exact Nat.le_add_right _ _

/-- Totals of summands that agree on the stored pairs agree. -/
theorem total_congr {f g : κ → υ → Nat} {m : BTreeMap κ υ}
    (h : ∀ k v, m[k]? = some v → f k v = g k v) : total f m = total g m := by
  unfold total
  rw [List.map_congr_left]
  rintro ⟨k, v⟩ hp
  exact h k v (mem_toList.mp hp)

end BTreeMap

namespace BTreeSet

variable {κ : Type} [Ord κ] [TransOrd κ] [LawfulEqOrd κ]

theorem mem_insert_iff {s : BTreeSet κ} {k a : κ} : a ∈ s.insert k ↔ k = a ∨ a ∈ s := by
  rw [ExtTreeSet.mem_insert, LawfulEqCmp.compare_eq_iff_eq]

theorem mem_erase_iff {s : BTreeSet κ} {k a : κ} : a ∈ s.erase k ↔ k ≠ a ∧ a ∈ s := by
  rw [ExtTreeSet.mem_erase, Ne, Ne, LawfulEqCmp.compare_eq_iff_eq]

theorem size_insert_of_not_mem {s : BTreeSet κ} {k : κ} (h : k ∉ s) :
    (s.insert k).size = s.size + 1 := by
  rw [ExtTreeSet.size_insert, if_neg (fun hc => h (ExtTreeSet.contains_iff_mem.mp hc))]

theorem size_erase_of_mem {s : BTreeSet κ} {k : κ} (h : k ∈ s) :
    (s.erase k).size + 1 = s.size := by
  have hpos : 0 < s.size := by
    rcases Nat.eq_zero_or_pos s.size with h0 | hpos
    · rw [← ExtTreeSet.eq_empty_iff_size_eq_zero] at h0
      subst h0
      simp at h
    · exact hpos
  rw [ExtTreeSet.size_erase, if_pos (ExtTreeSet.contains_iff_mem.mpr h)]
  omega

theorem eq_empty_of_size {s : BTreeSet κ} (h : s.size = 0) : s = ∅ :=
  ExtTreeSet.eq_empty_iff_size_eq_zero.mpr h

/-- The members of a set of size one agree. -/
theorem eq_of_size_one {s : BTreeSet κ} (h : s.size = 1) {a b : κ} (ha : a ∈ s) (hb : b ∈ s) :
    a = b := by
  have hlen : s.toList.length = 1 := by rw [ExtTreeSet.length_toList, h]
  obtain ⟨c, hc⟩ := List.length_eq_one_iff.mp hlen
  have ha' : a ∈ s.toList := ExtTreeSet.mem_toList.mpr ha
  have hb' : b ∈ s.toList := ExtTreeSet.mem_toList.mpr hb
  rw [hc, List.mem_singleton] at ha' hb'
  rw [ha', hb']

theorem toList_of_size_one {s : BTreeSet κ} (h : s.size = 1) {a : κ} (ha : a ∈ s) :
    s.toList = [a] := by
  have hlen : s.toList.length = 1 := by rw [ExtTreeSet.length_toList, h]
  obtain ⟨c, hc⟩ := List.length_eq_one_iff.mp hlen
  have ha' : a ∈ s.toList := ExtTreeSet.mem_toList.mpr ha
  rw [hc, List.mem_singleton] at ha'
  rw [hc, ha']

end BTreeSet

end Riscbox

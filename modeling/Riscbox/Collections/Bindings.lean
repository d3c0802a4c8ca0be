import Mathlib

/-!
# Bindings in the order of their keys

An ordered map as the list of its bindings, so that a tree may hold maps of its own
kind.  Such a list is determined by what is bound to each key.
-/

namespace Riscbox
namespace Bindings

variable {κ υ : Type} [LinearOrder κ]

/-- Bind a key, in place of what it was bound to. -/
def insert (key : κ) (value : υ) : List (κ × υ) → List (κ × υ)
  | [] => [(key, value)]
  | binding :: rest =>
    if key < binding.1 then (key, value) :: binding :: rest
    else if key = binding.1 then (key, value) :: rest
    else binding :: insert key value rest

/-- The keys increase. -/
def Ordered (bindings : List (κ × υ)) : Prop := bindings.Pairwise fun a b => a.1 < b.1

/-- The bindings that are left of members in the order in which they were bound: the last
one of every key. -/
structure LastOf (members bindings : List (κ × υ)) : Prop where
  ordered : Ordered bindings
  lookup : ∀ key, bindings.lookup key = members.reverse.lookup key

variable {key other : κ} {value : υ} {bindings members : List (κ × υ)}

theorem lookup_cons (binding : κ × υ) (bindings : List (κ × υ)) (other : κ) :
    (binding :: bindings).lookup other =
      if other = binding.1 then some binding.2 else bindings.lookup other := by
  by_cases h : other = binding.1
  · rw [if_pos h, List.lookup, beq_iff_eq.mpr h]
  · rw [if_neg h, List.lookup, beq_eq_false_iff_ne.mpr h]

theorem mem_insert {binding : κ × υ} (h : binding ∈ insert key value bindings) :
    binding = (key, value) ∨ binding ∈ bindings := by
  induction bindings with
  | nil => exact .inl (List.mem_singleton.mp h)
  | cons first rest ih =>
    unfold insert at h
    by_cases hlt : key < first.1
    · rw [if_pos hlt] at h
      exact List.mem_cons.mp h
    · rw [if_neg hlt] at h
      by_cases heq : key = first.1
      · rw [if_pos heq] at h
        exact (List.mem_cons.mp h).imp_right (List.mem_cons_of_mem _)
      · rw [if_neg heq] at h
        rcases List.mem_cons.mp h with rfl | hrest
        · exact .inr List.mem_cons_self
        · exact (ih hrest).imp_right (List.mem_cons_of_mem _)

theorem ordered_insert (h : Ordered bindings) : Ordered (insert key value bindings) := by
  induction bindings with
  | nil => exact List.pairwise_singleton _ _
  | cons first rest ih =>
    obtain ⟨hfirst, hrest⟩ := List.pairwise_cons.mp h
    unfold insert
    by_cases hlt : key < first.1
    · rw [if_pos hlt]
      refine List.pairwise_cons.mpr ⟨fun binding hmem => ?_, h⟩
      rcases List.mem_cons.mp hmem with rfl | hmem
      · exact hlt
      · exact hlt.trans (hfirst binding hmem)
    · rw [if_neg hlt]
      by_cases heq : key = first.1
      · rw [if_pos heq, heq]
        exact List.pairwise_cons.mpr ⟨hfirst, hrest⟩
      · rw [if_neg heq]
        refine List.pairwise_cons.mpr ⟨fun binding hmem => ?_, ih hrest⟩
        rcases mem_insert hmem with rfl | hmem
        · exact lt_of_le_of_ne (not_lt.mp hlt) (Ne.symm heq)
        · exact hfirst binding hmem

theorem lookup_insert (key other : κ) (value : υ) (bindings : List (κ × υ)) :
    (insert key value bindings).lookup other =
      if other = key then some value else bindings.lookup other := by
  induction bindings with
  | nil => rw [insert, lookup_cons]
  | cons first rest ih =>
    unfold insert
    by_cases hlt : key < first.1
    · rw [if_pos hlt, lookup_cons]
    · rw [if_neg hlt]
      by_cases heq : key = first.1
      · rw [if_pos heq, lookup_cons, lookup_cons, ← heq]
        by_cases hother : other = key
        · simp [hother]
        · simp [hother]
      · rw [if_neg heq, lookup_cons, lookup_cons, ih]
        by_cases hother : other = key
        · simp [hother, heq]
        · simp [hother]

theorem lookup_eq_none (h : ∀ binding ∈ bindings, other ≠ binding.1) :
    bindings.lookup other = none := by
  induction bindings with
  | nil => rfl
  | cons first rest ih =>
    rw [lookup_cons, if_neg (h first List.mem_cons_self)]
    exact ih fun binding hmem => h binding (List.mem_cons_of_mem _ hmem)

/-- Equal lookups, equal bindings. -/
theorem Ordered.ext {others : List (κ × υ)} (h : Ordered bindings) (hothers : Ordered others)
    (hlookup : ∀ key, bindings.lookup key = others.lookup key) : bindings = others := by
  have hfirst : ∀ {a : κ × υ} {rest : List (κ × υ)} {other : κ},
      Ordered (a :: rest) → other < a.1 → (a :: rest).lookup other = none := by
    intro a rest other ha hlt
    refine lookup_eq_none fun binding hmem => ?_
    rcases List.mem_cons.mp hmem with rfl | hmem
    · exact hlt.ne
    · exact (hlt.trans ((List.pairwise_cons.mp ha).1 binding hmem)).ne
  induction bindings generalizing others with
  | nil =>
    cases others with
    | nil => rfl
    | cons b others =>
      have hb := hlookup b.1
      rw [lookup_cons, if_pos rfl] at hb
      cases hb
  | cons a bindings ih =>
    cases others with
    | nil =>
      have ha := hlookup a.1
      rw [lookup_cons, if_pos rfl] at ha
      cases ha
    | cons b others =>
      have hkeys : a.1 = b.1 := by
        rcases lt_trichotomy a.1 b.1 with hlt | heq | hlt
        · have ha := hlookup a.1
          rw [hfirst hothers hlt, lookup_cons, if_pos rfl] at ha
          cases ha
        · exact heq
        · have hb := hlookup b.1
          rw [hfirst h hlt, lookup_cons, if_pos rfl] at hb
          cases hb
      have hvalues : a.2 = b.2 := by
        have ha := hlookup a.1
        rw [lookup_cons, if_pos rfl, lookup_cons, if_pos hkeys] at ha
        exact Option.some.inj ha
      have hab : a = b := Prod.ext hkeys hvalues
      subst hab
      congr 1
      refine ih (List.pairwise_cons.mp h).2 (List.pairwise_cons.mp hothers).2 fun key => ?_
      by_cases hkey : key = a.1
      · have hrest : ∀ {rest : List (κ × υ)}, Ordered (a :: rest) → rest.lookup key = none :=
          fun hrest => lookup_eq_none fun binding hmem => by
            rw [hkey]
            exact ((List.pairwise_cons.mp hrest).1 binding hmem).ne
        rw [hrest h, hrest hothers]
      · have hall := hlookup key
        rw [lookup_cons, if_neg hkey, lookup_cons, if_neg hkey] at hall
        exact hall

theorem lastOf_nil : LastOf ([] : List (κ × υ)) [] := ⟨List.Pairwise.nil, fun _ => rfl⟩

theorem LastOf.insert (h : LastOf members bindings) (key : κ) (value : υ) :
    LastOf (members ++ [(key, value)]) (insert key value bindings) where
  ordered := ordered_insert h.ordered
  lookup other := by
    rw [lookup_insert, h.lookup, List.reverse_append, List.reverse_singleton,
      List.singleton_append, lookup_cons]

theorem exists_lastOf (members : List (κ × υ)) : ∃ bindings, LastOf members bindings := by
  induction members using List.reverseRecOn with
  | nil => exact ⟨[], lastOf_nil⟩
  | append_singleton members member ih =>
    obtain ⟨bindings, h⟩ := ih
    exact ⟨_, h.insert member.1 member.2⟩

theorem LastOf.unique {others : List (κ × υ)} (h : LastOf members bindings)
    (hothers : LastOf members others) : bindings = others :=
  h.ordered.ext hothers.ordered fun key => (h.lookup key).trans (hothers.lookup key).symm

end Bindings
end Riscbox

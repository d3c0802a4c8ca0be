import Mathlib

/-!
# Lists of regions as partial functions

A list of regions, each with a value, stands for a partial function on points: a point
has the value of the first region that covers it.  Where no two regions of the list
share a point the order does not matter.  The operations cut points out of regions, drop
regions and add one.
-/

namespace Riscbox.Regions

variable {α κ υ : Type} {covers : α → κ → Bool} {value : α → υ}

/-- The value at a point. -/
def valueAt (covers : α → κ → Bool) (value : α → υ) (l : List α) (k : κ) : Option υ :=
  (l.find? (covers · k)).map value

/-- No two regions of the list share a point. -/
def Disjoint (covers : α → κ → Bool) (l : List α) : Prop :=
  l.Pairwise fun a b => ∀ k, covers a k = true → covers b k = false

theorem valueAt_cons (a : α) (l : List α) (k : κ) : valueAt covers value (a :: l) k =
    if covers a k then some (value a) else valueAt covers value l k := by
  unfold valueAt
  rw [List.find?_cons]
  cases covers a k <;> rfl

theorem valueAt_append (l l' : List α) (k : κ) : valueAt covers value (l ++ l') k =
    (valueAt covers value l k).or (valueAt covers value l' k) := by
  unfold valueAt
  rw [List.find?_append]
  cases l.find? (covers · k) <;> rfl

theorem valueAt_eq_none {l : List α} {k : κ} :
    valueAt covers value l k = none ↔ ∀ a ∈ l, covers a k = false := by
  unfold valueAt
  rw [Option.map_eq_none_iff, List.find?_eq_none]
  simp

theorem exists_of_valueAt {l : List α} {k : κ} {v : υ} (h : valueAt covers value l k = some v) :
    ∃ a ∈ l, covers a k = true ∧ value a = v := by
  obtain ⟨a, ha, rfl⟩ := Option.map_eq_some_iff.mp h
  exact ⟨a, List.mem_of_find?_eq_some ha, by simpa using List.find?_some ha, rfl⟩

theorem Disjoint.nil : Disjoint covers ([] : List α) := List.Pairwise.nil

/-- In a disjoint list the covering region decides the value. -/
theorem Disjoint.valueAt_of_mem {l : List α} (h : Disjoint covers l) {a : α} {k : κ} (ha : a ∈ l)
    (hk : covers a k = true) : valueAt covers value l k = some (value a) := by
  induction l with
  | nil => cases ha
  | cons b l ih =>
    obtain ⟨hb, hl⟩ := List.pairwise_cons.mp h
    rw [valueAt_cons]
    rcases List.mem_cons.mp ha with rfl | ha
    · rw [if_pos hk]
    · rw [if_neg, ih hl ha]
      intro hbk
      have := hb a ha k hbk
      rw [hk] at this
      cases this

/-! ## Cutting points out -/

/-- `pieces a` covers the points of `a` that are kept, with the value of `a`. -/
structure Cuts (covers : α → κ → Bool) (value : α → υ) (keep : α → κ → Bool)
    (pieces : α → List α) : Prop where
  value_eq : ∀ a, ∀ b ∈ pieces a, value b = value a
  covers_iff : ∀ a k, (∃ b ∈ pieces a, covers b k = true) ↔ covers a k = true ∧ keep a k = true
  disjoint : ∀ a, Disjoint covers (pieces a)

namespace Cuts

variable {keep : α → κ → Bool} {pieces : α → List α}

theorem covers_of_mem (c : Cuts covers value keep pieces) {a b : α} {k : κ} (hb : b ∈ pieces a)
    (hk : covers b k = true) : covers a k = true ∧ keep a k = true :=
  (c.covers_iff a k).mp ⟨b, hb, hk⟩

theorem valueAt_pieces (c : Cuts covers value keep pieces) (a : α) (k : κ) :
    valueAt covers value (pieces a) k =
      if covers a k && keep a k then some (value a) else none := by
  by_cases hk : (covers a k && keep a k) = true
  · rw [if_pos hk]
    rw [Bool.and_eq_true] at hk
    obtain ⟨b, hb, hbk⟩ := (c.covers_iff a k).mpr hk
    rw [(c.disjoint a).valueAt_of_mem hb hbk, c.value_eq a b hb]
  · rw [if_neg hk, valueAt_eq_none]
    intro b hb
    by_contra hbk
    refine hk ?_
    rw [Bool.and_eq_true]
    exact c.covers_of_mem hb (by simpa using hbk)

theorem disjoint_flatMap (c : Cuts covers value keep pieces) {l : List α}
    (h : Disjoint covers l) : Disjoint covers (l.flatMap pieces) := by
  unfold Disjoint
  rw [List.pairwise_flatMap]
  refine ⟨fun a _ => c.disjoint a, h.imp fun {a a'} hab b hb b' hb' k hk => ?_⟩
  by_contra hk'
  have ha := (c.covers_of_mem hb hk).1
  have ha' := (c.covers_of_mem hb' (by simpa using hk')).1
  rw [hab k ha] at ha'
  cases ha'

/-- Every region loses the points that it does not keep. -/
theorem valueAt_flatMap (c : Cuts covers value keep pieces) {l : List α} {k : κ}
    (h : Disjoint covers l) {kept : Bool} (hkept : ∀ a ∈ l, covers a k = true → keep a k = kept) :
    valueAt covers value (l.flatMap pieces) k =
      if kept then valueAt covers value l k else none := by
  induction l with
  | nil => cases kept <;> rfl
  | cons a l ih =>
    obtain ⟨_, hl⟩ := List.pairwise_cons.mp h
    have ih := ih hl fun b hb => hkept b (List.mem_cons_of_mem _ hb)
    rw [List.flatMap_cons, valueAt_append, c.valueAt_pieces, ih, valueAt_cons]
    cases hk : covers a k with
    | false => cases kept <;> rfl
    | true =>
      rw [hkept a List.mem_cons_self hk]
      cases hkept : kept with
      | false => rfl
      | true => rfl

end Cuts

/-! ## Dropping and adding regions -/

theorem Disjoint.filter {l : List α} (h : Disjoint covers l) (p : α → Bool) :
    Disjoint covers (l.filter p) := List.Pairwise.filter p h

/-- Dropping regions by their value. -/
theorem Disjoint.valueAt_filter {l : List α} (h : Disjoint covers l) (p : υ → Bool) (k : κ) :
    valueAt covers value (l.filter (p ∘ value)) k = (valueAt covers value l k).filter p := by
  induction l with
  | nil => rfl
  | cons a l ih =>
    obtain ⟨ha, hl⟩ := List.pairwise_cons.mp h
    have ih := ih hl
    rw [List.filter_cons, valueAt_cons]
    cases hk : covers a k with
    | false =>
      cases hp : (p ∘ value) a with
      | false => simpa using ih
      | true => simpa [valueAt_cons, hk] using ih
    | true =>
      have hnone : valueAt covers value l k = none :=
        valueAt_eq_none.mpr fun b hb => ha b hb k hk
      rw [hnone] at ih
      rw [if_pos rfl]
      cases hp : (p ∘ value) a with
      | false =>
        rw [if_neg (by simp), ih]
        simp_all [Option.filter]
      | true =>
        rw [if_pos rfl, valueAt_cons, hk, if_pos rfl]
        simp_all [Option.filter]

theorem Disjoint.append_singleton {l : List α} (h : Disjoint covers l) {a : α}
    (ha : ∀ b ∈ l, ∀ k, covers b k = true → covers a k = false) : Disjoint covers (l ++ [a]) := by
  unfold Disjoint
  rw [List.pairwise_append]
  refine ⟨h, List.pairwise_singleton _ _, fun b hb c hc k hk => ?_⟩
  rw [List.mem_singleton] at hc
  rw [hc]
  exact ha b hb k hk

end Riscbox.Regions

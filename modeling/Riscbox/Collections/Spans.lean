import Mathlib.Data.List.SplitBy
import Mathlib.Order.Basic

/-!
# Runs of a list

The maximal runs in which each element is near the one before.  A list grows at its end:
the new element joins the last run or opens one.
-/

namespace Riscbox
namespace Spans

variable {α : Type}

/-- Each run is near in itself, and not near to the next. -/
def runs (near : α → α → Bool) (items : List α) : List (List α) := items.splitBy near

variable {near : α → α → Bool} {items run : List α} {before : List (List α)} {last item : α}

theorem runs_open (h : ∀ last ∈ items.getLast?, near last item = false) :
    runs near (items ++ [item]) = runs near items ++ [[item]] :=
  List.splitBy_append_cons [] h

theorem runs_join (hruns : runs near items = before ++ [run]) (hlast : run.getLast? = some last)
    (h : near last item = true) : runs near (items ++ [item]) = before ++ [run ++ [item]] := by
  obtain ⟨hflatten, hnil, hchain, hapart⟩ := List.splitBy_eq_iff.mp hruns
  apply List.splitBy_eq_iff.mpr
  have hne : run ≠ [] := fun hempty => hnil (by simp [hempty])
  refine ⟨by simp [hflatten], ?_, ?_, ?_⟩
  · intro hmem
    rcases List.mem_append.mp hmem with hmem | hmem
    · exact hnil (List.mem_append_left _ hmem)
    · simp at hmem
  · intro m hmem
    rcases List.mem_append.mp hmem with hmem | hmem
    · exact hchain m (List.mem_append_left _ hmem)
    · rw [List.mem_singleton.mp hmem]
      apply List.isChain_append.mpr
      refine ⟨hchain run (List.mem_append_right _ (List.mem_singleton_self _)),
        List.isChain_singleton _, ?_⟩
      intro x hx y hy
      rw [hlast] at hx
      cases hx
      cases hy
      exact h
  · obtain ⟨hbefore, -, hlink⟩ := List.isChain_append.mp hapart
    apply List.isChain_append.mpr
    refine ⟨hbefore, List.isChain_singleton _, ?_⟩
    intro x hx y hy
    cases hy
    obtain ⟨hxne, hrunne, hfar⟩ := hlink x hx run rfl
    refine ⟨hxne, by simp, ?_⟩
    rw [List.head_append_left hrunne]
    exact hfar

theorem runs_flatten (near : α → α → Bool) (items : List α) : (runs near items).flatten = items :=
  List.flatten_splitBy near items

theorem ne_nil_of_mem (h : run ∈ runs near items) : run ≠ [] := List.ne_nil_of_mem_splitBy h

/-- The list ends with the end of its last run. -/
theorem getLast_runs (hruns : runs near items = before ++ [run]) :
    items.getLast? = run.getLast? := by
  have hflatten := runs_flatten near items
  have hmem : run ∈ runs near items := by
    rw [hruns]
    exact List.mem_append_right _ (List.mem_singleton_self _)
  have hne : run ≠ [] := ne_nil_of_mem hmem
  rw [← hflatten, hruns, List.flatten_append, List.flatten_singleton,
    List.getLast?_append_of_ne_nil _ hne]

theorem runs_cases (near : α → α → Bool) (items : List α) :
    items = [] ∨ ∃ before run last,
      runs near items = before ++ [run] ∧ run.getLast? = some last ∧
        items.getLast? = some last := by
  rcases List.eq_nil_or_concat items with hnil | ⟨front, last, hitems⟩
  · exact .inl hnil
  · right
    rw [List.concat_eq_append] at hitems
    have hne : runs near items ≠ [] := by
      rw [runs, List.splitBy_ne_nil, hitems]
      simp
    rcases List.eq_nil_or_concat (runs near items) with hnil | ⟨before, run, hruns⟩
    · exact absurd hnil hne
    · rw [List.concat_eq_append] at hruns
      have hlast : items.getLast? = some last := by rw [hitems, List.getLast?_concat]
      exact ⟨before, run, last, hruns, (getLast_runs hruns).symm.trans hlast, hlast⟩

theorem near_of_not_open (h : ¬∀ last ∈ items.getLast?, near last item = false)
    (hlast : items.getLast? = some last) : near last item = true := by
  by_contra hfar
  apply h
  intro other hother
  rw [hlast] at hother
  cases hother
  simpa using hfar

/-- A property of first elements, after the list has grown. -/
theorem heads_snoc {p : α → Prop} :
    (∀ run ∈ runs near (items ++ [item]), ∀ first ∈ run.head?, p first) ↔
      (∀ run ∈ runs near items, ∀ first ∈ run.head?, p first) ∧
        ((∀ last ∈ items.getLast?, near last item = false) → p item) := by
  by_cases hopen : ∀ last ∈ items.getLast?, near last item = false
  · rw [runs_open hopen]
    constructor
    · intro h
      exact ⟨fun run hrun => h run (List.mem_append_left _ hrun), fun _ =>
        h [item] (List.mem_append_right _ (List.mem_singleton_self _)) item rfl⟩
    · rintro ⟨h, hitem⟩ run hrun
      rcases List.mem_append.mp hrun with hrun | hrun
      · exact h run hrun
      · rw [List.mem_singleton.mp hrun]
        intro first hfirst
        cases hfirst
        exact hitem hopen
  · rcases runs_cases near items with rfl | ⟨before, run, last, hruns, hrun, hlast⟩
    · exact absurd (fun last hlast => by cases hlast) hopen
    · have hnear : near last item = true := near_of_not_open hopen hlast
      have hne : run ≠ [] := by
        rintro rfl
        cases hrun
      have hhead : (run ++ [item]).head? = run.head? := List.head?_append_of_ne_nil _ hne
      rw [runs_join hruns hrun hnear, hruns]
      constructor
      · intro h
        refine ⟨fun other hother => ?_, fun hall => absurd hall hopen⟩
        rcases List.mem_append.mp hother with hother | hother
        · exact h other (List.mem_append_left _ hother)
        · rw [List.mem_singleton.mp hother, ← hhead]
          exact h _ (List.mem_append_right _ (List.mem_singleton_self _))
      · rintro ⟨h, -⟩ other hother
        rcases List.mem_append.mp hother with hother | hother
        · exact h other (List.mem_append_left _ hother)
        · rw [List.mem_singleton.mp hother, hhead]
          exact h run (List.mem_append_right _ (List.mem_singleton_self _))

/-- Where a list is sorted, so are its runs and what lies in them. -/
theorem pairwise_runs {r : α → α → Prop} (h : items.Pairwise r) :
    (∀ run ∈ runs near items, run.Pairwise r) ∧
      (runs near items).Pairwise fun run later => ∀ x ∈ run, ∀ y ∈ later, r x y := by
  rw [← runs_flatten near items] at h
  exact List.pairwise_flatten.mp h

/-- A run is not near to the next. -/
theorem apart (near : α → α → Bool) (items : List α) :
    (runs near items).IsChain fun run later =>
      ∀ last ∈ run.getLast?, ∀ first ∈ later.head?, near last first = false := by
  apply (List.isChain_getLast_head_splitBy near items).imp
  rintro run later ⟨hrun, hlater, hfar⟩ last hlast first hfirst
  rw [List.getLast?_eq_some_getLast hrun] at hlast
  rw [List.head?_eq_some_head hlater] at hfirst
  cases hlast
  cases hfirst
  exact hfar

/-- The ends of a sorted run. -/
theorem sorted_bounds [Preorder α] {first : α} (hsorted : run.Pairwise (· < ·))
    (hfirst : run.head? = some first) (hlast : run.getLast? = some last) (hitem : item ∈ run) :
    first ≤ item ∧ item ≤ last := by
  constructor
  · cases run with
    | nil => cases hfirst
    | cons other rest =>
      cases hfirst
      rcases List.mem_cons.mp hitem with rfl | hrest
      · exact le_refl _
      · exact le_of_lt ((List.pairwise_cons.mp hsorted).1 item hrest)
  · rcases List.eq_nil_or_concat run with rfl | ⟨front, other, rfl⟩
    · cases hlast
    · rw [List.concat_eq_append] at hsorted hlast hitem
      rw [List.getLast?_concat] at hlast
      cases hlast
      rcases List.mem_append.mp hitem with hfront | hother
      · exact le_of_lt ((List.pairwise_append.mp hsorted).2.2 item hfront last
          (List.mem_singleton_self _))
      · exact le_of_eq (List.mem_singleton.mp hother)

end Spans
end Riscbox

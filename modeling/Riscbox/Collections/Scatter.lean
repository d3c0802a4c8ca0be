import Mathlib.Data.List.Nodup
import Mathlib.Logic.Function.Basic

/-!
# Stores written place by place

A list of values is written over a store at a list of places, in order.
-/

namespace Riscbox.Scatter

variable {ι α : Type} [DecidableEq ι]

/-- The values written at the places, the later ones over the earlier ones. -/
def poke (store : ι → α) : List ι → List α → ι → α
  | [], _ => store
  | _ :: _, [] => store
  | place :: places, value :: values => poke (Function.update store place value) places values

theorem poke_nil (store : ι → α) (values : List α) : poke store [] values = store := rfl

theorem poke_cons (store : ι → α) (place : ι) (places : List ι) (value : α) (values : List α) :
    poke store (place :: places) (value :: values) =
      poke (Function.update store place value) places values := rfl

theorem poke_append {places : List ι} {values : List α} (h : places.length = values.length)
    (store : ι → α) (morePlaces : List ι) (moreValues : List α) :
    poke store (places ++ morePlaces) (values ++ moreValues) =
      poke (poke store places values) morePlaces moreValues := by
  induction places generalizing store values with
  | nil =>
    obtain rfl := List.length_eq_zero_iff.mp h.symm
    rfl
  | cons place places ih =>
    cases values with
    | nil => cases h
    | cons value values => exact ih (Nat.succ.inj h) _

theorem poke_of_not_mem {places : List ι} {other : ι} (h : other ∉ places) (store : ι → α)
    (values : List α) : poke store places values other = store other := by
  induction places generalizing store values with
  | nil => rfl
  | cons place places ih =>
    cases values with
    | nil => rfl
    | cons value values =>
      rw [List.mem_cons, not_or] at h
      rw [poke_cons, ih h.2, Function.update_of_ne h.1]

theorem poke_congr {store store' : ι → α} {other : ι} (h : store other = store' other)
    (places : List ι) (values : List α) :
    poke store places values other = poke store' places values other := by
  induction places generalizing store store' values with
  | nil => exact h
  | cons place places ih =>
    cases values with
    | nil => exact h
    | cons value values =>
      apply ih
      by_cases hother : other = place
      · rw [hother, Function.update_self, Function.update_self]
      · rw [Function.update_of_ne hother, Function.update_of_ne hother, h]

/-- At places of their own the values are found again. -/
theorem map_poke {places : List ι} {values : List α} (hnodup : places.Nodup)
    (h : places.length = values.length) (store : ι → α) :
    places.map (poke store places values) = values := by
  induction places generalizing store values with
  | nil => exact (List.length_eq_zero_iff.mp h.symm).symm
  | cons place places ih =>
    cases values with
    | nil => cases h
    | cons value values =>
      obtain ⟨hplace, hplaces⟩ := List.nodup_cons.mp hnodup
      have hhead : poke (Function.update store place value) places values place = value := by
        rw [poke_of_not_mem hplace, Function.update_self]
      rw [List.map_cons, poke_cons, hhead, ih hplaces (Nat.succ.inj h)]

/-- Values written over an interval. -/
theorem poke_range' {store : Nat → α} {start other : Nat} {values : List α}
    (hle : start ≤ other) (hlt : other < start + values.length) :
    some (poke store (List.range' start values.length) values other) =
      values[other - start]? := by
  induction values generalizing start store with
  | nil =>
    rw [List.length_nil] at hlt
    omega
  | cons value values ih =>
    rw [List.length_cons] at hlt
    rw [List.length_cons, List.range'_succ, poke_cons]
    rcases Nat.eq_or_lt_of_le hle with rfl | hbefore
    · have hnot : start ∉ List.range' (start + 1) values.length := by
        rw [List.mem_range'_1]
        omega
      rw [poke_of_not_mem hnot, Function.update_self, Nat.sub_self]
      rfl
    · rw [ih hbefore (by omega), show other - start = other - (start + 1) + 1 by omega]
      rfl

end Riscbox.Scatter

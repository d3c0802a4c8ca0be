import Riscbox.Collections.OrderedMap

/-!
# Recency

Ordered maps whose values carry the time of their last use.  A set of keys is
newest when it was used after everything else; eviction by age spares it until
nothing else is left.
-/

namespace Riscbox
namespace Recency

open Std

variable {κ υ : Type} [Ord κ] [TransOrd κ] [LawfulEqOrd κ] [DecidableEq κ]

/-- No use is later than `clock`. -/
def UsedBy (m : BTreeMap κ (Nat × υ)) (clock : Nat) : Prop :=
  ∀ (k : κ) (e : Nat × υ), m[k]? = some e → e.1 ≤ clock

/-- The keys of `ks` are stored, and were used after all other keys. -/
structure Newest (m : BTreeMap κ (Nat × υ)) (ks : Finset κ) : Prop where
  stored : ∀ k ∈ ks, m[k]? ≠ none
  newer : ∀ (k other : κ) (e e' : Nat × υ), k ∈ ks → other ∉ ks → m[k]? = some e →
    m[other]? = some e' → e'.1 < e.1

variable {m : BTreeMap κ (Nat × υ)} {ks : Finset κ} {clock : Nat}

theorem UsedBy.insert (h : UsedBy m clock) (k : κ) (v : υ) :
    UsedBy (m.insert k (clock + 1, v)) (clock + 1) := by
  intro a e ha
  rw [BTreeMap.get_insert] at ha
  by_cases hka : k = a
  · rw [if_pos hka] at ha
    rw [← Option.some.inj ha]
  · rw [if_neg hka] at ha
    exact (h a e ha).trans (Nat.le_succ _)

omit [LawfulEqOrd κ] [DecidableEq κ] in
theorem newest_empty (m : BTreeMap κ (Nat × υ)) : Newest m ∅ :=
  ⟨fun k hk => absurd hk (Finset.notMem_empty k),
    fun k _ _ _ hk _ _ _ => absurd hk (Finset.notMem_empty k)⟩

/-- A use adds its key to the newest ones. -/
theorem Newest.insert (h : Newest m ks) (hused : UsedBy m clock) (k : κ) (v : υ) :
    Newest (m.insert k (clock + 1, v)) (Insert.insert k ks) := by
  constructor
  · intro a ha
    rw [BTreeMap.get_insert]
    by_cases hka : k = a
    · rw [if_pos hka]
      simp
    · rw [if_neg hka]
      exact h.stored a ((Finset.mem_insert.mp ha).resolve_left (Ne.symm hka))
  · intro a other e e' ha hother he he'
    rw [Finset.mem_insert, not_or] at hother
    rw [BTreeMap.get_insert_of_ne _ _ (Ne.symm hother.1)] at he'
    rw [BTreeMap.get_insert] at he
    by_cases hka : k = a
    · rw [if_pos hka] at he
      rw [← Option.some.inj he]
      exact Nat.lt_succ_of_le (hused other e' he')
    · rw [if_neg hka] at he
      exact h.newer a other e e' ((Finset.mem_insert.mp ha).resolve_left (Ne.symm hka))
        hother.2 he he'

theorem Newest.erase (h : Newest m ks) {k : κ} (hk : k ∉ ks) : Newest (m.erase k) ks := by
  have hne : ∀ a ∈ ks, k ≠ a := fun a ha hka => hk (hka ▸ ha)
  constructor
  · intro a ha
    rw [BTreeMap.get_erase_of_ne _ (hne a ha)]
    exact h.stored a ha
  · intro a other e e' ha hother he he'
    rw [BTreeMap.get_erase_of_ne _ (hne a ha)] at he
    rw [BTreeMap.get_erase] at he'
    by_cases hko : k = other
    · rw [if_pos hko] at he'
      simp at he'
    · rw [if_neg hko] at he'
      exact h.newer a other e e' ha hother he he'

/-- A map of more keys than the newest ones stores another. -/
theorem exists_other (hlt : ks.card < m.size) : ∃ k ∉ ks, m[k]? ≠ none := by
  by_contra hnone
  have hall : ∀ p ∈ m.toList.map Prod.fst, p ∈ ks := by
    intro k hk
    by_contra hks
    refine hnone ⟨k, hks, ?_⟩
    obtain ⟨p, hp, rfl⟩ := List.mem_map.mp hk
    rw [BTreeMap.mem_toList.mp hp]
    simp
  have hcard := Finset.card_le_card (s := (m.toList.map Prod.fst).toFinset) (t := ks)
    fun k hk => hall k (List.mem_toFinset.mp hk)
  rw [List.toFinset_card_of_nodup (BTreeMap.nodup_keys m), List.length_map,
    ExtTreeMap.length_toList] at hcard
  exact absurd hcard (Nat.not_le_of_lt hlt)

/-- The key of the earliest use is none of the newest while others are left. -/
theorem Newest.not_mem_of_oldest (h : Newest m ks) (hlt : ks.card < m.size) {k : κ}
    {e : Nat × υ} (hk : m[k]? = some e)
    (holdest : ∀ (a : κ) (e' : Nat × υ), m[a]? = some e' → e.1 ≤ e'.1) : k ∉ ks := by
  intro hks
  obtain ⟨other, hother, hstored⟩ := exists_other hlt
  obtain ⟨e', he'⟩ := Option.ne_none_iff_exists'.mp hstored
  have hnewer := h.newer k other e e' hks hother hk he'
  have hle := holdest other e' he'
  omega

end Recency
end Riscbox

import Mathlib

/-!
# Ledgers of a queue

What has been accepted into a queue is settled or still waits.  A settled item has a
fate, and the items of one fate are a subsequence of the accepted ones.
-/

namespace Riscbox
namespace Ledger

variable {α φ : Type}

/-- The accepted items are the settled ones, in order, and then those that wait. -/
def Conserves (accepted : List α) (settled : List (α × φ)) (waiting : List α) : Prop :=
  settled.map Prod.fst ++ waiting = accepted

/-- The settled items of some fates. -/
def fated (p : φ → Bool) (settled : List (α × φ)) : List α :=
  (settled.filter fun entry => p entry.2).map Prod.fst

variable {accepted items waiting later : List α} {settled now : List (α × φ)}

theorem Conserves.nil : Conserves ([] : List α) ([] : List (α × φ)) [] := rfl

theorem Conserves.accept (h : Conserves accepted settled waiting) (items : List α) :
    Conserves (accepted ++ items) settled (waiting ++ items) := by
  unfold Conserves
  rw [← List.append_assoc, h]

theorem Conserves.settle (h : Conserves accepted settled waiting)
    (hnow : waiting = now.map Prod.fst ++ later) : Conserves accepted (settled ++ now) later := by
  unfold Conserves
  rw [List.map_append, List.append_assoc, ← hnow, h]

theorem fated_append (p : φ → Bool) (settled now : List (α × φ)) :
    fated p (settled ++ now) = fated p settled ++ fated p now := by
  unfold fated
  rw [List.filter_append, List.map_append]

/-- In order, and each at most once. -/
theorem Conserves.fated_sublist (h : Conserves accepted settled waiting) (p : φ → Bool) :
    (fated p settled).Sublist accepted := by
  have hfated : (fated p settled).Sublist (settled.map Prod.fst) :=
    List.filter_sublist.map Prod.fst
  rw [← h]
  exact hfated.trans (List.sublist_append_left _ _)

end Ledger
end Riscbox

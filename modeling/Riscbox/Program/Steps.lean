import Riscbox.Program.Outcome

/-!
# What a call does to its state

Rules for a relation between the state before a call and the state after it, however
the call ended.
-/

namespace Riscbox
namespace Op

/-- Another name for the errors of a call. -/
def mapError {σ ε ε' α : Type} (f : ε → ε') (x : Op σ ε α) : Op σ ε' α := fun s =>
  match x s with
  | (.ok a, t) => (.ok a, t)
  | (.err e, t) => (.err (f e), t)
  | (.panic, t) => (.panic, t)

variable {σ ε α β : Type} {R : σ → σ → Prop}

/-- The call leads from a state to a related one. -/
def Along (R : σ → σ → Prop) (x : Op σ ε α) : Prop := ∀ s, R s (x s).2

section Rules

variable (hrefl : ∀ s, R s s) (htrans : ∀ s t u, R s t → R t u → R s u)
  {x y : Op σ ε α} {f : α → Op σ ε β}

include hrefl in
theorem along_still (h : ∀ s, (x s).2 = s) : Along R x := by
  intro s
  rw [h s]
  exact hrefl s

include hrefl in
theorem along_pure (a : α) : Along R (pure a : Op σ ε α) := along_still hrefl fun _ => rfl

include hrefl in
theorem along_fail (e : ε) : Along R (fail e : Op σ ε α) := along_still hrefl fun _ => rfl

include hrefl in
theorem along_lift (r : Outcome ε α) : Along R (lift r : Op σ ε α) :=
  along_still hrefl fun _ => rfl

include hrefl in
theorem along_reading (r : σ → Outcome ε α) : Along R (reading r) :=
  along_still hrefl fun _ => rfl

include hrefl in
theorem along_get : Along R (get : Op σ ε σ) := along_still hrefl fun _ => rfl

theorem along_modify {f : σ → σ} (h : ∀ s, R s (f s)) : Along R (modify f : Op σ ε Unit) := h

include htrans in
theorem Along.bind (hx : Along R x) (hf : ∀ a, Along R (f a)) : Along R (x >>= f) := by
  intro s
  have hstep := hx s
  rw [bind_apply]
  rcases hcase : x s with ⟨ending, t⟩
  rw [hcase] at hstep
  cases ending with
  | ok a => exact htrans s t _ hstep (hf a t)
  | err e => exact hstep
  | panic => exact hstep

theorem along_ite {c : Prop} [Decidable c] (hx : c → Along R x) (hy : ¬c → Along R y) :
    Along R (if c then x else y) := by
  by_cases h : c
  · rw [if_pos h]
    exact hx h
  · rw [if_neg h]
    exact hy h

include hrefl htrans in
/-- A check in the middle of a call. -/
theorem along_guard {c : Prop} [Decidable c] {e : ε} {f : Unit → Op σ ε β}
    (hf : ∀ u, Along R (f u)) : Along R (if c then fail e >>= f else f ()) :=
  along_ite (fun _ => (along_fail hrefl e).bind htrans hf) fun _ => hf ()

theorem Along.mapError {ε' : Type} {g : ε → ε'} (hx : Along R x) : Along R (mapError g x) := by
  intro s
  have hstep := hx s
  unfold Op.mapError
  rcases hcase : x s with ⟨_ | _ | _, t⟩ <;> rw [hcase] at hstep <;> exact hstep

end Rules

end Op
end Riscbox

import Mathlib

/-!
# Stateful calls that may fail or panic

A call on a state ends with a value, with an error of its own, or in a panic.  An
error does not undo what the call has already written, so `Op` returns the state
beside every ending.  A loop that outlives its fuel also ends in `panic`: a proof
that a call does not panic is then a proof that it terminates.
-/

namespace Riscbox

inductive Outcome (ε α : Type) where
  | ok (a : α)
  | err (e : ε)
  | panic
  deriving DecidableEq, Repr

namespace Outcome

variable {ε ε' α β : Type}

def andThen (x : Outcome ε α) (f : α → Outcome ε β) : Outcome ε β :=
  match x with
  | ok a => f a
  | err e => err e
  | panic => panic

instance : Monad (Outcome ε) where
  pure := ok
  bind := andThen

/-- `ok_or`: the value of an option, or an error. -/
def okOr (e : ε) : Option α → Outcome ε α
  | some a => ok a
  | none => err e

/-- `expect`: the value of an option, or a panic. -/
def expect : Option α → Outcome ε α
  | some a => ok a
  | none => panic

/-- An unsigned subtraction, which panics on underflow. -/
def sub (a b : Nat) : Outcome ε Nat := if b ≤ a then ok (a - b) else panic

def mapErr (f : ε → ε') : Outcome ε α → Outcome ε' α
  | ok a => ok a
  | err e => err (f e)
  | panic => panic

@[simp] theorem pure_eq (a : α) : (pure a : Outcome ε α) = ok a := rfl

@[simp] theorem ok_bind (a : α) (f : α → Outcome ε β) : (ok a >>= f) = f a := rfl

@[simp] theorem err_bind (e : ε) (f : α → Outcome ε β) : (err e >>= f) = err e := rfl

@[simp] theorem panic_bind (f : α → Outcome ε β) : (panic >>= f) = (panic : Outcome ε β) := rfl

@[simp] theorem okOr_some (e : ε) (a : α) : okOr e (some a) = ok a := rfl

@[simp] theorem okOr_none (e : ε) : okOr e (none : Option α) = err e := rfl

@[simp] theorem expect_some (a : α) : (expect (some a) : Outcome ε α) = ok a := rfl

theorem sub_eq {a b : Nat} (h : b ≤ a) : (sub a b : Outcome ε Nat) = ok (a - b) := if_pos h

@[simp] theorem mapErr_ok (f : ε → ε') (a : α) : mapErr f (ok a) = ok a := rfl

@[simp] theorem mapErr_err (f : ε → ε') (e : ε) : mapErr f (err e : Outcome ε α) = err (f e) := rfl

theorem bind_eq_ok {x : Outcome ε α} {f : α → Outcome ε β} {b : β} :
    (x >>= f) = ok b ↔ ∃ a, x = ok a ∧ f a = ok b := by
  cases x <;> simp

theorem okOr_eq_ok {e : ε} {o : Option α} {a : α} : okOr e o = ok a ↔ o = some a := by
  cases o <;> simp

theorem okOr_ne_panic (e : ε) (o : Option α) : okOr e o ≠ panic := by
  cases o <;> simp

theorem bind_ne_panic {x : Outcome ε α} {f : α → Outcome ε β} (hx : x ≠ panic)
    (hf : ∀ a, x = ok a → f a ≠ panic) : (x >>= f) ≠ panic := by
  cases x with
  | ok a => exact hf a rfl
  | err e => simp
  | panic => exact absurd rfl hx

end Outcome

/-- A call on a state `σ`. -/
def Op (σ ε α : Type) : Type := σ → Outcome ε α × σ

namespace Op

variable {σ ε ε' α β : Type}

def ret (a : α) : Op σ ε α := fun s => (.ok a, s)

def andThen (x : Op σ ε α) (f : α → Op σ ε β) : Op σ ε β := fun s =>
  match x s with
  | (.ok a, t) => f a t
  | (.err e, t) => (.err e, t)
  | (.panic, t) => (.panic, t)

instance : Monad (Op σ ε) where
  pure := ret
  bind := andThen

def fail (e : ε) : Op σ ε α := fun s => (.err e, s)

def abort : Op σ ε α := fun s => (.panic, s)

def get : Op σ ε σ := fun s => (.ok s, s)

def set (s : σ) : Op σ ε Unit := fun _ => (.ok (), s)

def modify (f : σ → σ) : Op σ ε Unit := fun s => (.ok (), f s)

/-- A computation that only reads the state. -/
def reading (f : σ → Outcome ε α) : Op σ ε α := fun s => (f s, s)

def lift (x : Outcome ε α) : Op σ ε α := fun s => (x, s)

def checkedSub (a b : Nat) : Op σ ε Nat := fun s =>
  if b ≤ a then (.ok (a - b), s) else (.panic, s)

/-- The error of a call as a value; a panic is not caught. -/
def attempt (x : Op σ ε α) : Op σ ε' (Except ε α) := fun s =>
  match x s with
  | (.ok a, t) => (.ok (.ok a), t)
  | (.err e, t) => (.ok (.error e), t)
  | (.panic, t) => (.panic, t)

/-- The state after the call, however it ended. -/
def after (x : Op σ ε α) (s : σ) : σ := (x s).2

@[simp] theorem pure_apply (a : α) (s : σ) : (pure a : Op σ ε α) s = (.ok a, s) := rfl

@[simp] theorem fail_apply (e : ε) (s : σ) : (fail e : Op σ ε α) s = (.err e, s) := rfl

@[simp] theorem abort_apply (s : σ) : (abort : Op σ ε α) s = (.panic, s) := rfl

@[simp] theorem get_apply (s : σ) : (get : Op σ ε σ) s = (.ok s, s) := rfl

@[simp] theorem set_apply (s t : σ) : (set t : Op σ ε Unit) s = (.ok (), t) := rfl

@[simp] theorem modify_apply (f : σ → σ) (s : σ) : (modify f : Op σ ε Unit) s = (.ok (), f s) := rfl

@[simp] theorem reading_apply (f : σ → Outcome ε α) (s : σ) : reading f s = (f s, s) := rfl

@[simp] theorem lift_apply (x : Outcome ε α) (s : σ) : lift x s = (x, s) := rfl

theorem lift_ok {r : Outcome ε α} {a : α} (h : r = .ok a) (s : σ) : lift r s = (.ok a, s) := by
  rw [lift_apply, h]

theorem reading_ok {r : σ → Outcome ε α} {a : α} {s : σ} (h : r s = .ok a) :
    reading r s = (.ok a, s) := by
  rw [reading_apply, h]

theorem checkedSub_apply {a b : Nat} (h : b ≤ a) (s : σ) :
    (checkedSub a b : Op σ ε Nat) s = (.ok (a - b), s) := by
  rw [checkedSub, if_pos h]

theorem bind_apply (x : Op σ ε α) (f : α → Op σ ε β) (s : σ) :
    (x >>= f) s = match x s with
      | (.ok a, t) => f a t
      | (.err e, t) => (.err e, t)
      | (.panic, t) => (.panic, t) := rfl

theorem bind_ok {x : Op σ ε α} {f : α → Op σ ε β} {s t : σ} {a : α} (h : x s = (.ok a, t)) :
    (x >>= f) s = f a t := by
  rw [bind_apply, h]

@[simp] theorem map_snd (f : α → β) (x : Op σ ε α) (s : σ) : ((f <$> x) s).2 = (x s).2 := by
  show ((x >>= fun a => pure (f a)) s).2 = _
  rw [bind_apply]
  split
  next hx => rw [hx]; rfl
  next hx => rw [hx]
  next hx => rw [hx]

theorem bind_err {x : Op σ ε α} {f : α → Op σ ε β} {s t : σ} {e : ε} (h : x s = (.err e, t)) :
    (x >>= f) s = (.err e, t) := by
  rw [bind_apply, h]

/-- Inversion of a sequence that ended with a value. -/
theorem bind_eq_ok {x : Op σ ε α} {f : α → Op σ ε β} {s u : σ} {b : β}
    (h : (x >>= f) s = (.ok b, u)) : ∃ a t, x s = (.ok a, t) ∧ f a t = (.ok b, u) := by
  rw [bind_apply] at h
  cases hx : x s with
  | mk r t =>
    rw [hx] at h
    cases r with
    | ok a => exact ⟨a, t, rfl, h⟩
    | err e => simp at h
    | panic => simp at h

/-- The value that a reading step hands on. -/
theorem reading_bind_eq_ok {r : σ → Outcome ε α} {f : α → Op σ ε β} {s u : σ} {b : β}
    (h : (reading r >>= f) s = (.ok b, u)) : ∃ a, r s = .ok a ∧ f a s = (.ok b, u) := by
  obtain ⟨a, t, hread, h⟩ := bind_eq_ok h
  rw [reading_apply] at hread
  cases ht : r s with
  | ok a' => rw [ht] at hread; cases hread; exact ⟨a, rfl, h⟩
  | err e => rw [ht] at hread; cases hread
  | panic => rw [ht] at hread; cases hread

theorem lift_bind_eq_ok {r : Outcome ε α} {f : α → Op σ ε β} {s u : σ} {b : β}
    (h : (lift r >>= f) s = (.ok b, u)) : ∃ a, r = .ok a ∧ f a s = (.ok b, u) :=
  reading_bind_eq_ok (r := fun _ => r) h

/-! ## Calls whose state does not matter -/

/-- The call does not panic, and its value has the property. -/
def Gives (x : Op σ ε α) (post : α → Prop) : Prop := ∀ s,
  match (x s).1 with
  | .ok a => post a
  | .err _ => True
  | .panic => False

section Gives

variable {x : Op σ ε α} {f : α → Op σ ε β} {post post' : α → Prop} {post₂ : β → Prop}

theorem Gives.of_ok (h : x.Gives post) {s : σ} {a : α} (ha : (x s).1 = .ok a) : post a := by
  have hs := h s
  rw [ha] at hs
  exact hs

theorem Gives.ne_panic (h : x.Gives post) (s : σ) : (x s).1 ≠ .panic := by
  intro hp
  have hs := h s
  rw [hp] at hs
  exact hs

theorem gives_pure {a : α} (h : post a) : (pure a : Op σ ε α).Gives post := fun _ => h

theorem gives_fail (e : ε) : (fail e : Op σ ε α).Gives post := fun _ => trivial

theorem gives_lift {r : Outcome ε α} (hr : r ≠ .panic) (h : ∀ a, r = .ok a → post a) :
    (lift r : Op σ ε α).Gives post := by
  intro s
  cases r with
  | ok a => exact h a rfl
  | err e => trivial
  | panic => exact hr rfl

theorem Gives.bind (hx : x.Gives post) (hf : ∀ a, post a → (f a).Gives post₂) :
    (x >>= f).Gives post₂ := by
  intro s
  have hs := hx s
  rw [bind_apply]
  cases hx' : x s with
  | mk r t =>
    rw [hx'] at hs
    cases r with
    | ok a => exact hf a hs t
    | err e => trivial
    | panic => exact hs

theorem Gives.map {f : α → β} (hx : x.Gives post) (hf : ∀ a, post a → post₂ (f a)) :
    (f <$> x).Gives post₂ :=
  hx.bind fun a ha => gives_pure (hf a ha)

end Gives

/-! ## Calls that are atomic -/

/-- The call ends with a value, and with `post` of it and of the state after it. -/
def Yields (x : Op σ ε α) (s : σ) (post : α → σ → Prop) : Prop :=
  ∃ a t, x s = (.ok a, t) ∧ post a t

/-- The call does not panic, an error leaves the state as it was, and a value comes
with `post`. -/
def Ends (x : Op σ ε α) (s : σ) (post : α → σ → Prop) : Prop :=
  match x s with
  | (.ok a, t) => post a t
  | (.err _, t) => t = s
  | (.panic, _) => False

variable {x : Op σ ε α} {f : α → Op σ ε β} {s t : σ} {post post' : α → σ → Prop}
  {post₂ : β → σ → Prop}

theorem Yields.ends (h : x.Yields s post) : x.Ends s post := by
  obtain ⟨a, t, hx, hp⟩ := h
  rw [Ends, hx]
  exact hp

theorem Yields.mono (h : x.Yields s post) (hpost : ∀ a t, post a t → post' a t) :
    x.Yields s post' := by
  obtain ⟨a, t, hx, hp⟩ := h
  exact ⟨a, t, hx, hpost a t hp⟩

theorem Yields.bind (hx : x.Yields s post) (hf : ∀ a t, post a t → (f a).Yields t post₂) :
    (x >>= f).Yields s post₂ := by
  obtain ⟨a, t, hx, hp⟩ := hx
  obtain ⟨b, u, hb, hq⟩ := hf a t hp
  exact ⟨b, u, (bind_ok hx).trans hb, hq⟩

theorem yields_pure {a : α} (h : post a s) : (pure a : Op σ ε α).Yields s post :=
  ⟨a, s, rfl, h⟩

theorem yields_step {a : α} (hx : x s = (.ok a, t)) (hf : (f a).Yields t post₂) :
    (x >>= f).Yields s post₂ := by
  obtain ⟨b, u, hb, hq⟩ := hf
  exact ⟨b, u, (bind_ok hx).trans hb, hq⟩

theorem yields_then {c : Prop} [Decidable c] {y : Op σ ε α} (hc : c) (hx : x.Yields s post) :
    (if c then x else y).Yields s post := by
  rw [if_pos hc]
  exact hx

theorem yields_else {c : Prop} [Decidable c] {y : Op σ ε α} (hc : ¬c) (hx : x.Yields s post) :
    (if c then y else x).Yields s post := by
  rw [if_neg hc]
  exact hx

theorem Yields.of_eq (hs : s = t) (h : x.Yields t post) : x.Yields s post := by
  rw [hs]
  exact h

theorem ends_of_err {e : ε} (h : x s = (.err e, s)) : x.Ends s post := by
  rw [Ends, h]

theorem ends_fail (e : ε) : (fail e : Op σ ε α).Ends s post := rfl

theorem ends_pure {a : α} (h : post a s) : (pure a : Op σ ε α).Ends s post := h

/-- A step that ends with a value and leaves the state. -/
theorem ends_step {a : α} (hx : x s = (.ok a, s)) (hf : (f a).Ends s post₂) :
    (x >>= f).Ends s post₂ := by
  rw [Ends, bind_ok hx]
  exact hf

theorem ends_get {f : σ → Op σ ε β} (hf : (f s).Ends s post₂) : (get >>= f).Ends s post₂ := hf

/-- A check may fail while nothing is written. -/
theorem ends_lift {r : Outcome ε α} (hr : r ≠ .panic)
    (hf : ∀ a, r = .ok a → (f a).Ends s post₂) : (lift r >>= f).Ends s post₂ := by
  cases r with
  | ok a => exact hf a rfl
  | err e => exact ends_of_err rfl
  | panic => exact absurd rfl hr

theorem ends_reading {r : σ → Outcome ε α} (hr : r s ≠ .panic)
    (hf : ∀ a, r s = .ok a → (f a).Ends s post₂) : (reading r >>= f).Ends s post₂ :=
  ends_lift hr hf

theorem Ends.mono (h : x.Ends s post) (hpost : ∀ a t, post a t → post' a t) :
    x.Ends s post' := by
  unfold Ends at h ⊢
  split
  next a t hx =>
    rw [hx] at h
    exact hpost a t h
  next e t hx =>
    rw [hx] at h
    exact h
  next t hx =>
    rw [hx] at h
    exact h

/-- Atomic calls in sequence, where the second does not fail. -/
theorem Ends.bind (hx : x.Ends s post) (hf : ∀ a t, post a t → (f a).Yields t post₂) :
    (x >>= f).Ends s post₂ := by
  unfold Ends at hx
  split at hx
  next a t hx' =>
    obtain ⟨b, u, hb, hq⟩ := hf a t hx
    exact Yields.ends ⟨b, u, (bind_ok hx').trans hb, hq⟩
  next e t hx' =>
    subst hx
    exact ends_of_err (bind_err hx')
  next => exact hx.elim

theorem Ends.map {f : α → β} (h : x.Ends s fun a t => post₂ (f a) t) :
    (f <$> x).Ends s post₂ :=
  h.bind fun a t hp => ⟨f a, t, rfl, hp⟩

theorem Ends.ne_panic (h : x.Ends s post) : (x s).1 ≠ .panic := by
  unfold Ends at h
  intro hp
  split at h
  next hx => rw [hx] at hp; cases hp
  next hx => rw [hx] at hp; cases hp
  next => exact h

theorem Ends.of_err {e : ε} (h : x.Ends s post) (he : (x s).1 = .err e) : x.after s = s := by
  unfold Ends at h
  rw [after]
  split at h
  next hx => rw [hx] at he; cases he
  next hx => rw [hx]; exact h
  next => exact h.elim

theorem Ends.of_ok {a : α} (h : x.Ends s post) (ha : (x s).1 = .ok a) : post a (x.after s) := by
  unfold Ends at h
  rw [after]
  split at h
  next hx =>
    rw [hx] at ha ⊢
    cases ha
    exact h
  next hx => rw [hx] at ha; cases ha
  next => exact h.elim

/-- What a call does to the state, whether it failed or not. -/
theorem Ends.after_cases (h : x.Ends s post) :
    x.after s = s ∨ ∃ a, (x s).1 = .ok a ∧ post a (x.after s) := by
  cases hx : (x s).1 with
  | ok a => exact .inr ⟨a, rfl, h.of_ok hx⟩
  | err e => exact .inl (h.of_err hx)
  | panic => exact absurd hx h.ne_panic

/-! ## Calls that tear -/

/-- `Ends`, except that an error may also leave a state that is `torn`. -/
def Settles (x : Op σ ε α) (s : σ) (torn : σ → Prop) (post : α → σ → Prop) : Prop :=
  match x s with
  | (.ok a, t) => post a t
  | (.err _, t) => t = s ∨ torn t
  | (.panic, _) => False

variable {torn : σ → Prop}

theorem Ends.settles (h : x.Ends s post) : x.Settles s torn post := by
  unfold Ends at h
  unfold Settles
  split
  next hx => rw [hx] at h; exact h
  next hx => rw [hx] at h; exact .inl h
  next hx => rw [hx] at h; exact h

theorem settles_fail (e : ε) : (fail e : Op σ ε α).Settles s torn post := .inl rfl

theorem Settles.mono (h : x.Settles s torn post) (hpost : ∀ a t, post a t → post' a t) :
    x.Settles s torn post' := by
  unfold Settles at h ⊢
  split
  next hx => rw [hx] at h; exact hpost _ _ h
  next hx => rw [hx] at h; exact h
  next hx => rw [hx] at h; exact h

theorem Settles.weaken {torn' : σ → Prop} (h : x.Settles s torn post)
    (ht : ∀ t, torn t → torn' t) : x.Settles s torn' post := by
  unfold Settles at h ⊢
  split
  next hx => rw [hx] at h; exact h
  next hx => rw [hx] at h; exact h.imp_right (ht _)
  next hx => rw [hx] at h; exact h

theorem settles_of_err {e : ε} (h : x s = (.err e, s)) : x.Settles s torn post := by
  rw [Settles, h]
  exact .inl rfl

theorem settles_step {a : α} (hx : x s = (.ok a, s)) (hf : (f a).Settles s torn post₂) :
    (x >>= f).Settles s torn post₂ := by
  rw [Settles, bind_ok hx]
  exact hf

theorem settles_get {f : σ → Op σ ε β} (hf : (f s).Settles s torn post₂) :
    (get >>= f).Settles s torn post₂ := hf

theorem settles_lift {r : Outcome ε α} (hr : r ≠ .panic)
    (hf : ∀ a, r = .ok a → (f a).Settles s torn post₂) :
    (lift r >>= f).Settles s torn post₂ := by
  cases r with
  | ok a => exact hf a rfl
  | err e => exact .inl rfl
  | panic => exact absurd rfl hr

theorem settles_reading {r : σ → Outcome ε α} (hr : r s ≠ .panic)
    (hf : ∀ a, r s = .ok a → (f a).Settles s torn post₂) :
    (reading r >>= f).Settles s torn post₂ :=
  settles_lift hr hf

/-- A sequence, where the second call either does not fail or leaves only torn states. -/
theorem Settles.bind (hx : x.Settles s torn post)
    (hf : ∀ a t, post a t →
      (f a).Yields t post₂ ∨ ((f a).Settles t torn post₂ ∧ (t = s ∨ torn t))) :
    (x >>= f).Settles s torn post₂ := by
  unfold Settles at hx
  split at hx
  next a t hx' =>
    rw [Settles, bind_ok hx']
    rcases hf a t hx with ⟨b, u, hb, hq⟩ | ⟨hset, htorn⟩
    · rw [hb]
      exact hq
    · unfold Settles at hset
      split
      next hfa => rw [hfa] at hset; exact hset
      next hfa =>
        rw [hfa] at hset
        rcases hset with rfl | hset
        · exact htorn
        · exact .inr hset
      next hfa => rw [hfa] at hset; exact hset
  next hx' =>
    rw [Settles, bind_err hx']
    exact hx
  next => exact hx.elim

theorem Yields.settles (h : x.Yields s post) : x.Settles s torn post := h.ends.settles

/-- An error that is caught is a value. -/
theorem Settles.attempt (h : x.Settles s torn post) :
    (attempt x : Op σ ε' (Except ε α)).Yields s fun r t =>
      match r with
      | .ok a => post a t
      | .error _ => t = s ∨ torn t := by
  unfold Settles at h
  split at h
  next a t hx => exact ⟨.ok a, t, by rw [Op.attempt, hx], h⟩
  next e t hx => exact ⟨.error e, t, by rw [Op.attempt, hx], h⟩
  next => exact h.elim

theorem Settles.ne_panic (h : x.Settles s torn post) : (x s).1 ≠ .panic := by
  unfold Settles at h
  intro hp
  split at h
  next hx => rw [hx] at hp; cases hp
  next hx => rw [hx] at hp; cases hp
  next => exact h

theorem Settles.of_err {e : ε} (h : x.Settles s torn post) (he : (x s).1 = .err e) :
    x.after s = s ∨ torn (x.after s) := by
  unfold Settles at h
  rw [after]
  split at h
  next hx => rw [hx] at he; cases he
  next hx => rw [hx]; exact h
  next => exact h.elim

theorem Settles.of_ok {a : α} (h : x.Settles s torn post) (ha : (x s).1 = .ok a) :
    post a (x.after s) := by
  unfold Settles at h
  rw [after]
  split at h
  next hx =>
    rw [hx] at ha ⊢
    cases ha
    exact h
  next hx => rw [hx] at ha; cases ha
  next => exact h.elim

end Op

end Riscbox

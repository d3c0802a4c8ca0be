import Riscbox.Protocol.Submission

/-!
# Submitting, resetting and closing

What the three calls on a session do to the fids that the namespace counts.
-/

namespace Riscbox

open NinePSession
open Filesystem (WellFormed Call)

/-- The fids of the session that the namespace counts are those of its generation. -/
def charged (a : Activation) (i : InodeId) : Nat :=
  if a.session.generation = a.fs.generation then a.session.held i else 0

/-- The namespace counts the fids of the session. -/
def Covered (a : Activation) : Prop := ∀ i, charged a i ≤ a.fs.refsOf i

theorem charged_synced (a : Activation) (i : InodeId) :
    (synced a).session.held i = charged a i := by
  unfold charged
  by_cases h : a.session.generation = a.fs.generation
  · rw [synced_of_current h, if_pos h]
  · rw [synced_of_stale h, if_neg h]
    exact held_empty { a.session with generation := a.fs.generation } i

theorem Covered.held {a : Activation} (h : Covered a) : Held (synced a) := by
  intro i
  rw [charged_synced, synced_fs]
  exact h i

theorem charged_of_current {a : Activation} (h : a.session.generation = a.fs.generation)
    (i : InodeId) : charged a i = a.session.held i := if_pos h

/-- What a call on a session does to it and to the namespace. -/
structure Acted (a t : Activation) : Prop where
  reached : a.fs.Reached t.fs
  identity : t.session.identity = a.session.identity
  number : t.session.session = a.session.session
  sized : a.session.Sized → t.session.Sized
  current : t = a ∨ t.session.generation = a.fs.generation
  counted : Covered a → ∀ i, t.fs.refsOf i + charged a i = a.fs.refsOf i + charged t i
  bounded : Covered a → a.session.FidsBounded → t.session.FidsBounded
  tags : Covered a → a.fs.TagsFrom t.fs (some a.session.session)

theorem Acted.refl (a : Activation) : Acted a a where
  reached := .refl _
  identity := rfl
  number := rfl
  sized := id
  current := .inl rfl
  counted := fun _ _ => rfl
  bounded := fun _ => id
  tags := fun _ l hl => .inr ⟨l, hl, rfl⟩

theorem synced_bounded {a : Activation} (h : a.session.FidsBounded) :
    (synced a).session.FidsBounded := by
  by_cases hcurrent : a.session.generation = a.fs.generation
  · rw [synced_of_current hcurrent]
    exact h
  · rw [synced_of_stale hcurrent]
    exact FidsBounded.empty { a.session with generation := a.fs.generation }

theorem synced_device (a : Activation) : (synced a).session.identity = a.session.identity ∧
    (synced a).session.session = a.session.session ∧
    (synced a).session.closed = a.session.closed := by
  unfold synced
  split <;> exact ⟨rfl, rfl, rfl⟩

theorem Acted.of_served {a t : Activation} (hw : WellFormed a.fs) (h : Served (synced a) t) :
    Acted a t := by
  have hdevice := synced_device a
  have hreached : a.fs.Reached t.fs := synced_fs a ▸ h.reached
  have hgeneration : t.session.generation = a.fs.generation := by
    rw [h.device.generation, synced_generation]
  have hcurrent : t.session.generation = t.fs.generation := by
    rw [hgeneration, (hreached.frame hw).generation]
  constructor
  case reached => exact hreached
  case identity => rw [h.device.identity, hdevice.1]
  case number => rw [h.device.session, hdevice.2.1]
  case sized => exact fun hsized => h.device.sized (synced_sized hsized)
  case current => exact .inr hgeneration
  case counted =>
    intro hcovered i
    have hrefs := (h.counted hcovered.held).refs i
    rw [charged_synced, synced_fs] at hrefs
    rw [charged_of_current hcurrent]
    exact hrefs
  case bounded => exact fun hcovered hb => (h.counted hcovered.held).fids (synced_bounded hb)
  case tags =>
    intro hcovered
    have htags := (h.counted hcovered.held).tags
    rw [synced_fs, hdevice.2.1] at htags
    exact htags

/-- The fids and the generation stay, whatever else of the session changes. -/
theorem Acted.redress {a t : Activation} (h : Acted a t) {s : NinePSession}
    (hidentity : s.identity = t.session.identity) (hnumber : s.session = t.session.session)
    (hfids : s.fids = t.session.fids) (hgeneration : s.generation = t.session.generation)
    (hgen : t.session.generation = a.fs.generation) (hsized : t.session.Sized → s.Sized) :
    Acted a { t with session := s } where
  reached := h.reached
  identity := hidentity.trans h.identity
  number := hnumber.trans h.number
  sized := hsized ∘ h.sized
  current := .inr (hgeneration.trans hgen)
  counted := by
    intro hcovered i
    have hsame : charged { t with session := s } i = charged t i := by
      simp only [charged, hgeneration, held, hfids]
    rw [hsame]
    exact h.counted hcovered i
  bounded := by
    intro hcovered hb
    unfold FidsBounded
    rw [hfids]
    exact h.bounded hcovered hb
  tags := h.tags

/-! ## Submitting -/

theorem Ended.moved {a t : Activation} {kind : UInt8} {tag : UInt16} {capacity : Nat}
    {answer : Outcome ProtocolError (List UInt8)} (h : Ended a kind tag capacity answer t) :
    Served a t := by
  cases h with
  | refused hrefusal hkept =>
    rcases hkept with rfl | htorn
    · exact .refl _
    · exact htorn.1
  | served hserved => exact hserved

theorem submit_of_refused {a : Activation} {e : ProtocolError} (h : checkIdentity a = .err e)
    (bytes : List UInt8) (capacity : Nat) : submit bytes capacity a = (.err e, a) := by
  unfold submit
  exact Op.bind_err (syncGeneration_err h)

theorem synced_acted {a : Activation} (hw : WellFormed a.fs) : Acted a (synced a) :=
  .of_served hw (.refl _)

theorem submit_acted {a : Activation} (hw : WellFormed a.fs) (hsized : a.session.Sized)
    (bytes : List UInt8) (capacity : Nat) : Acted a (submit bytes capacity a).2 := by
  cases hcheck : checkIdentity a with
  | panic => exact absurd hcheck (checkIdentity_ne_panic a)
  | err e =>
    rw [submit_of_refused hcheck]
    exact .refl a
  | ok _ =>
    rcases submit_ended hw hsized hcheck bytes capacity with hmalformed | ⟨_, _, -, -, hended⟩
    · rw [hmalformed]
      exact synced_acted hw
    · exact .of_served hw hended.moved

theorem submit_closed {a : Activation} (hw : WellFormed a.fs) (hsized : a.session.Sized)
    (bytes : List UInt8) (capacity : Nat) :
    (submit bytes capacity a).2.session.closed = a.session.closed := by
  have hsynced := (synced_device a).2.2
  cases hcheck : checkIdentity a with
  | panic => exact absurd hcheck (checkIdentity_ne_panic a)
  | err e => rw [submit_of_refused hcheck]
  | ok _ =>
    rcases submit_ended hw hsized hcheck bytes capacity with hmalformed | ⟨_, _, -, -, hended⟩
    · rw [hmalformed]
      exact hsynced
    · exact hended.moved.device.closed.trans hsynced

/-! ## Resetting -/

/-- A session after a reset of the device. -/
def retired (s : NinePSession) (generation : Nat) : NinePSession :=
  { s with fids := ∅, generation := generation, msize := maxMessageSize, negotiated := false }

/-- What a reset leaves behind: no fid, and no lock if the session had seen the namespace. -/
structure Retired (a t : Activation) : Prop where
  session : t.session = retired a.session a.fs.generation
  stale : a.session.generation ≠ a.fs.generation → t.fs = a.fs
  locks : a.session.generation = a.fs.generation → ∀ l ∈ t.fs.locks, l.session ≠ a.session.session

theorem retired_sized (s : NinePSession) (generation : Nat) : (retired s generation).Sized :=
  ⟨show 256 ≤ maxMessageSize by decide, Nat.le_refl _⟩

theorem reset_of_refused {a : Activation} {e : ProtocolError} (h : checkIdentity a = .err e) :
    reset a = (.err e, a) := by
  unfold reset
  exact Op.bind_err (by rw [Op.reading_apply, h])

theorem reset_of_stale {a : Activation} (h : checkIdentity a = .ok ())
    (hstale : a.session.generation ≠ a.fs.generation) :
    reset a = (.ok (), { a with session := retired a.session a.fs.generation }) := by
  unfold reset
  rw [Op.bind_ok (Op.reading_ok h), Op.bind_ok (Op.get_apply a), if_neg hstale]
  rfl

def restart (t : Activation) : Activation :=
  { t with
    session := { t.session with
      generation := t.fs.generation, msize := maxMessageSize, negotiated := false } }

theorem reset_of_current {a : Activation} (h : checkIdentity a = .ok ())
    (hcurrent : a.session.generation = a.fs.generation) :
    reset a = (releaseFids >>= fun _ => Op.modify restart) a := by
  unfold reset
  rw [Op.bind_ok (Op.reading_ok h), Op.bind_ok (Op.get_apply a), if_pos hcurrent]
  rfl

theorem restart_retired {a t : Activation} (hw : WellFormed a.fs)
    (hcurrent : a.session.generation = a.fs.generation) (h : Releases a t) :
    Acted a (restart t) ∧ Retired a (restart t) := by
  obtain ⟨hserved, hsession, hlocks⟩ := h
  have hgeneration : t.fs.generation = a.fs.generation := (hserved.reached.frame hw).generation
  have hacted : Acted a t := .of_served hw ((synced_of_current hcurrent).symm ▸ hserved)
  have hsame : (restart t).session = retired a.session a.fs.generation := by
    rw [restart, hsession, hgeneration]
    rfl
  have hgen : t.session.generation = a.fs.generation := by
    rw [hsession]
    exact hcurrent
  constructor
  · refine hacted.redress rfl rfl rfl (hgeneration.trans hgen.symm) hgen fun _ => ?_
    show (restart t).session.Sized
    rw [hsame]
    exact retired_sized _ _
  · exact ⟨hsame, fun hstale => absurd hcurrent hstale, fun _ => hlocks⟩

theorem stale_retired {a : Activation} (hw : WellFormed a.fs)
    (hstale : a.session.generation ≠ a.fs.generation) :
    Acted a { a with session := retired a.session a.fs.generation } ∧
      Retired a { a with session := retired a.session a.fs.generation } := by
  have hacted := synced_acted hw
  have hgen := synced_generation a
  rw [synced_of_stale hstale] at hacted hgen
  exact ⟨hacted.redress rfl rfl rfl rfl hgen fun _ => retired_sized _ _,
    rfl, fun _ => rfl, fun hcurrent => absurd hcurrent hstale⟩

/-- A reset does not fail while the fids are counted. -/
theorem reset_yields {a : Activation} (hw : WellFormed a.fs) (hcovered : Covered a)
    (h : checkIdentity a = .ok ()) : reset.Yields a fun _ t => Acted a t ∧ Retired a t := by
  by_cases hcurrent : a.session.generation = a.fs.generation
  · have hheld : Held a := synced_of_current hcurrent ▸ hcovered.held
    have hyields : (releaseFids >>= fun _ => Op.modify restart).Yields a
        fun _ t => Acted a t ∧ Retired a t :=
      (releaseFids_yields hw hheld).bind fun _ t ht =>
        ⟨(), restart t, rfl, restart_retired hw hcurrent ht⟩
    obtain ⟨_, t, ht, hpost⟩ := hyields
    exact ⟨(), t, (reset_of_current h hcurrent).trans ht, hpost⟩
  · exact ⟨(), _, reset_of_stale h hcurrent, stale_retired hw hcurrent⟩

/-- A reset that fails was refused, or met fids that are not counted. -/
theorem reset_settles {a : Activation} (hw : WellFormed a.fs) :
    reset.Settles a (fun t => Acted a t ∧ ¬Covered a) fun _ t => Acted a t ∧ Retired a t := by
  cases hcheck : checkIdentity a with
  | panic => exact absurd hcheck (checkIdentity_ne_panic a)
  | err e => exact Op.settles_of_err (reset_of_refused hcheck)
  | ok _ =>
    by_cases hcovered : Covered a
    · exact (reset_yields hw hcovered hcheck).settles
    by_cases hcurrent : a.session.generation = a.fs.generation
    · have hrelease : releaseFids.Settles a (fun t => Acted a t ∧ ¬Covered a)
          fun _ t => Releases a t := (releaseFids_settles hw).weaken fun t ht =>
        ⟨.of_served hw ((synced_of_current hcurrent).symm ▸ ht.1), hcovered⟩
      have hsettles : (releaseFids >>= fun _ => Op.modify restart).Settles a
          (fun t => Acted a t ∧ ¬Covered a) fun _ t => Acted a t ∧ Retired a t :=
        hrelease.bind fun _ t ht => .inl ⟨(), restart t, rfl, restart_retired hw hcurrent ht⟩
      unfold Op.Settles at hsettles ⊢
      rw [reset_of_current hcheck hcurrent]
      exact hsettles
    · unfold Op.Settles
      rw [reset_of_stale hcheck hcurrent]
      exact stale_retired hw hcurrent

theorem Op.Settles.along {σ ε α : Type} {x : Op σ ε α} {s : σ} {torn : σ → Prop}
    {post : α → σ → Prop} {P : σ → Prop} (h : x.Settles s torn post) (hs : P s)
    (htorn : ∀ t, torn t → P t) (hpost : ∀ a t, post a t → P t) : P (x s).2 := by
  unfold Op.Settles at h
  split at h
  next hx =>
    rw [hx]
    exact hpost _ _ h
  next hx =>
    rw [hx]
    rcases h with rfl | h
    · exact hs
    · exact htorn _ h
  next => exact h.elim

theorem reset_acted {a : Activation} (hw : WellFormed a.fs) : Acted a (reset a).2 :=
  (reset_settles hw).along (.refl a) (fun _ h => h.1) fun _ _ h => h.1

/-! ## Closing -/

def shut (t : Activation) : Activation := { t with session := { t.session with closed := true } }

theorem close_eq {a : Activation} (h : a.session.closed = false) :
    close a = (reset >>= fun _ => Op.modify shut) a := by
  unfold close
  rw [Op.bind_ok (Op.get_apply a), if_neg (by rw [h]; exact Bool.false_ne_true)]
  rfl

theorem close_of_closed {a : Activation} (h : a.session.closed = true) : (close a).2 = a := by
  unfold close
  rw [Op.bind_ok (Op.get_apply a), if_pos h]
  split <;> rfl

theorem Retired.shut {a t : Activation} (h : Acted a t) (hretired : Retired a t) :
    Acted a (shut t) := by
  have hgen : t.session.generation = a.fs.generation := by
    rw [hretired.session]
    rfl
  exact h.redress rfl rfl rfl rfl hgen id

theorem close_acted {a : Activation} (hw : WellFormed a.fs) : Acted a (close a).2 := by
  cases hclosed : a.session.closed with
  | true =>
    rw [close_of_closed hclosed]
    exact .refl a
  | false =>
    rw [close_eq hclosed]
    have hsettles : (reset >>= fun _ => Op.modify shut).Settles a
        (fun t => Acted a t ∧ ¬Covered a) fun _ t => Acted a t :=
      (reset_settles hw).bind fun _ t ht => .inl ⟨(), Riscbox.shut t, rfl, ht.2.shut ht.1⟩
    exact hsettles.along (.refl a) (fun _ h => h.1) fun _ _ h => h

end Riscbox

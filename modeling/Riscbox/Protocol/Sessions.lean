import Riscbox.Protocol.Shared

/-!
# Runs of sessions

What holds in every state that sessions and their host reach: fids are counted, and
sessions that were reset or closed hold nothing.
-/

namespace Riscbox

open NinePSession
open Filesystem (WellFormed Call)

namespace Shared

variable {s : Shared} {k : Nat} {x : NinePSession}

/-! ## Sessions without fids and locks -/

def Idle (s : Shared) (k : Nat) : Prop :=
  ∃ x, s.sessions[k]? = some x ∧ x.fids = ∅ ∧ ∀ l ∈ s.fs.locks, l.session ≠ x.session

theorem Idle.replaced (h : Idle s k) (hs : Sound s) {j : Nat} {y : NinePSession} {t : Activation}
    (hy : s.sessions[j]? = some y) (hacted : Acted (s.activate y) t) (hjk : j ≠ k) :
    Idle (s.replaced j t) k := by
  obtain ⟨x, hx, hfids, hlocks⟩ := h
  refine ⟨x, ?_, hfids, fun l hl => ?_⟩
  · show (s.sessions.set j t.session)[k]? = some x
    rw [List.getElem?_set_ne hjk, hx]
  · rcases hacted.tags (hs.covered (List.mem_of_getElem? hy)) l hl with htag | ⟨l', hl', heq⟩
    · rw [Option.some.inj htag]
      exact hs.session_ne hx hy hjk
    · rw [← heq]
      exact hlocks l' hl'

theorem Idle.host (h : Idle s k) (hs : Sound s) {call : Call}
    (hout : (Action.host call).Outside) : Idle (s.step (.host call)) k := by
  obtain ⟨x, hx, hfids, hlocks⟩ := h
  refine ⟨x, hx, hfids, fun l hl => ?_⟩
  rcases (host_effect hs.wellFormed hout).1.2 l hl with htag | ⟨l', hl', heq⟩
  · cases htag
  · rw [← heq]
    exact hlocks l' hl'

theorem Idle.connect (h : Idle s k) : Idle s.connect k := by
  rcases connect_eq s with heq | heq
  · rw [heq]
    exact h
  rw [heq]
  obtain ⟨x, hx, hfids, hlocks⟩ := h
  refine ⟨x, ?_, hfids, hlocks⟩
  show (s.sessions ++ [created s.fs])[k]? = some x
  rw [List.getElem?_append_left (List.getElem?_eq_some_iff.mp hx).1, hx]

/-- The session of an idle slot, whatever else of it changed. -/
theorem idle_replaced {t : Activation} (hx : s.sessions[k]? = some x)
    (hnumber : t.session.session = x.session) (hfids : t.session.fids = ∅)
    (hlocks : ∀ l ∈ t.fs.locks, l.session ≠ x.session) : Idle (s.replaced k t) k := by
  refine ⟨t.session, ?_, hfids, fun l hl => ?_⟩
  · show (s.sessions.set k t.session)[k]? = _
    rw [List.getElem?_set_self (List.getElem?_eq_some_iff.mp hx).1]
  · rw [hnumber]
    exact hlocks l hl

theorem Retired.idle {t : Activation} (hs : Sound s) (hx : s.sessions[k]? = some x)
    (h : Retired (s.activate x) t) :
    t.session.fids = ∅ ∧ ∀ l ∈ t.fs.locks, l.session ≠ x.session := by
  refine ⟨?_, ?_⟩
  · rw [h.session]
    rfl
  · by_cases hcurrent : x.generation = s.fs.generation
    · exact h.locks hcurrent
    · rw [h.stale hcurrent]
      exact hs.unlocked x (List.mem_of_getElem? hx) hcurrent

theorem checkIdentity_ok (hs : Stable s) (hx : x ∈ s.sessions) (hclosed : x.closed = false) :
    checkIdentity (s.activate x) = .ok () := by
  have hsame : ¬(s.activate x).session.identity ≠ (s.activate x).fs.identity :=
    not_not.mpr (hs.identity x hx)
  have hopen : ¬(s.activate x).session.closed = true := by
    show ¬x.closed = true
    rw [hclosed]
    exact Bool.false_ne_true
  rw [checkIdentity, if_neg hsame, if_neg hopen]

theorem checkIdentity_closed (hs : Stable s) (hx : x ∈ s.sessions) (hclosed : x.closed = true) :
    checkIdentity (s.activate x) = .err .closed := by
  have hsame : ¬(s.activate x).session.identity ≠ (s.activate x).fs.identity :=
    not_not.mpr (hs.identity x hx)
  have hshut : (s.activate x).session.closed = true := hclosed
  rw [checkIdentity, if_neg hsame, if_pos hshut]

theorem reset_idle (hs : Sound s) (hx : s.sessions[k]? = some x) (hclosed : x.closed = false) :
    Idle (s.step (.reset k)) k := by
  have hmem := List.mem_of_getElem? hx
  obtain ⟨_, t, ht, hacted, hretired⟩ := reset_yields (a := s.activate x) hs.wellFormed
    (hs.covered hmem) (checkIdentity_ok hs.toStable hmem hclosed)
  obtain ⟨hfids, hlocks⟩ := Retired.idle hs hx hretired
  show Idle (s.onSession k NinePSession.reset) k
  rw [onSession_of_some hx, ht]
  exact idle_replaced hx hacted.number hfids hlocks

/-- Closing an open session ends it. -/
theorem close_eq_shut (hs : Sound s) (hx : s.sessions[k]? = some x) (hclosed : x.closed = false) :
    ∃ t, close (s.activate x) = (.ok (), shut t) ∧ t.session.session = x.session ∧
      t.session.fids = ∅ ∧ ∀ l ∈ t.fs.locks, l.session ≠ x.session := by
  have hmem := List.mem_of_getElem? hx
  obtain ⟨_, t, ht, hacted, hretired⟩ := reset_yields (a := s.activate x) hs.wellFormed
    (hs.covered hmem) (checkIdentity_ok hs.toStable hmem hclosed)
  refine ⟨t, ?_, hacted.number, Retired.idle hs hx hretired⟩
  rw [close_eq (a := s.activate x) hclosed]
  exact Op.bind_ok ht

/-- Every action but a message keeps a session idle, and a message to a closed one does. -/
theorem Idle.step (h : Idle s k) (hs : Sound s) {action : Action} (hout : action.Outside)
    (hmessage : ∀ bytes capacity, action = .submit k bytes capacity →
      ∃ x, s.sessions[k]? = some x ∧ x.closed = true) : Idle (s.step action) k := by
  have hother : ∀ {ε α : Type} {j : Nat} (f : SessionOp ε α), j ≠ k →
      (∀ x ∈ s.sessions, Acted (s.activate x) (f (s.activate x)).2) →
        Idle (s.onSession j f) k := by
    intro ε α j f hjk hf
    cases hy : s.sessions[j]? with
    | none =>
      rw [onSession_of_none hy]
      exact h
    | some y =>
      rw [onSession_of_some hy]
      exact h.replaced hs hy (hf y (List.mem_of_getElem? hy)) hjk
  have hidle := h
  obtain ⟨x, hx, hfids, hlocks⟩ := hidle
  have hmem := List.mem_of_getElem? hx
  have hsame : s.replaced k (s.activate x) = s := by
    obtain ⟨hlt, heq⟩ := List.getElem?_eq_some_iff.mp hx
    have hset : s.sessions.set k x = s.sessions := by rw [← heq, List.set_getElem_self]
    exact congrArg (Shared.mk s.fs) hset
  cases action with
  | host call => exact h.host hs hout
  | connect => exact h.connect
  | submit j bytes capacity =>
    by_cases hjk : j = k
    · subst hjk
      obtain ⟨x', hx', hclosed⟩ := hmessage bytes capacity rfl
      rw [hx] at hx'
      cases hx'
      show Idle (s.onSession j (submit bytes capacity)) j
      rw [onSession_of_some hx, submit_of_refused (checkIdentity_closed hs.toStable hmem hclosed),
        hsame]
      exact h
    · exact hother _ hjk fun y hy => submit_acted hs.wellFormed (hs.sized y hy) bytes capacity
  | reset j =>
    by_cases hjk : j = k
    · subst hjk
      cases hclosed : x.closed with
      | false => exact reset_idle hs hx hclosed
      | true =>
        show Idle (s.onSession j NinePSession.reset) j
        rw [onSession_of_some hx, reset_of_refused (checkIdentity_closed hs.toStable hmem hclosed),
          hsame]
        exact h
    · exact hother _ hjk fun y hy => reset_acted hs.wellFormed
  | close j =>
    by_cases hjk : j = k
    · subst hjk
      show Idle (s.onSession j NinePSession.close) j
      rw [onSession_of_some hx]
      cases hclosed : x.closed with
      | false =>
        obtain ⟨t, ht, hnumber, hempty, hfree⟩ := close_eq_shut hs hx hclosed
        rw [ht]
        exact idle_replaced hx hnumber hempty hfree
      | true =>
        rw [close_of_closed (a := s.activate x) hclosed, hsame]
        exact h
    · exact hother _ hjk fun y hy => close_acted hs.wellFormed

/-- Every session that is closed is idle. -/
def ClosedIdle (s : Shared) : Prop :=
  ∀ k x, s.sessions[k]? = some x → x.closed = true → Idle s k

theorem reset_closed (hs : Sound s) (hx : x ∈ s.sessions) :
    (NinePSession.reset (s.activate x)).2.session.closed = x.closed := by
  cases hclosed : x.closed with
  | false =>
    obtain ⟨_, t, ht, -, hretired⟩ := reset_yields (a := s.activate x) hs.wellFormed
      (hs.covered hx) (checkIdentity_ok hs.toStable hx hclosed)
    rw [ht, hretired.session]
    exact hclosed
  | true =>
    rw [reset_of_refused (checkIdentity_closed hs.toStable hx hclosed)]
    exact hclosed

/-- A session is closed by a `close` only. -/
theorem closed_before (hs : Sound s) {action : Action} {x' : NinePSession}
    (hx' : (s.step action).sessions[k]? = some x') (hclosed : x'.closed = true) :
    ∃ x, s.sessions[k]? = some x ∧ (x.closed = true ∨ action = .close k) := by
  have hsession : ∀ {ε α : Type} {j : Nat} (f : SessionOp ε α),
      (∀ x ∈ s.sessions, j = k → (f (s.activate x)).2.session.closed = x.closed ∨
        action = .close k) →
      (s.onSession j f).sessions[k]? = some x' →
        ∃ x, s.sessions[k]? = some x ∧ (x.closed = true ∨ action = .close k) := by
    intro ε α j f hf hget
    cases hy : s.sessions[j]? with
    | none =>
      rw [onSession_of_none hy] at hget
      exact ⟨x', hget, .inl hclosed⟩
    | some y =>
      rw [onSession_of_some hy] at hget
      have hset : (s.sessions.set j (f (s.activate y)).2.session)[k]? = some x' := hget
      by_cases hjk : j = k
      · rw [hjk] at hset hy
        rw [List.getElem?_set_self (List.getElem?_eq_some_iff.mp hy).1] at hset
        refine ⟨y, hy, (hf y (List.mem_of_getElem? hy) hjk).imp_left fun hsame => ?_⟩
        rw [← hsame, Option.some.inj hset]
        exact hclosed
      · rw [List.getElem?_set_ne hjk] at hset
        exact ⟨x', hset, .inl hclosed⟩
  cases action with
  | host call => exact ⟨x', hx', .inl hclosed⟩
  | connect =>
    have hget : s.connect.sessions[k]? = some x' := hx'
    rcases connect_eq s with heq | heq
    · rw [heq] at hget
      exact ⟨x', hget, .inl hclosed⟩
    · rw [heq] at hget
      have happend : (s.sessions ++ [created s.fs])[k]? = some x' := hget
      rw [List.getElem?_append] at happend
      split at happend
      next => exact ⟨x', happend, .inl hclosed⟩
      next =>
        have hnew : x' = created s.fs := List.mem_singleton.mp (List.mem_of_getElem? happend)
        rw [hnew] at hclosed
        cases hclosed
  | submit j bytes capacity =>
    exact hsession _ (fun y hy _ =>
      .inl (submit_closed (a := s.activate y) hs.wellFormed (hs.sized y hy) bytes capacity)) hx'
  | reset j => exact hsession _ (fun y hy _ => .inl (reset_closed hs hy)) hx'
  | close j => exact hsession _ (fun y hy hjk => .inr (by rw [hjk])) hx'

theorem ClosedIdle.step (h : ClosedIdle s) (hs : Sound s) {action : Action}
    (hout : action.Outside) : ClosedIdle (s.step action) := by
  intro k x' hx' hclosed'
  obtain ⟨x, hx, hbefore⟩ := closed_before hs hx' hclosed'
  cases hclosed : x.closed with
  | true => exact (h k x hx hclosed).step hs hout fun _ _ _ => ⟨x, hx, hclosed⟩
  | false =>
    rw [hclosed] at hbefore
    rcases hbefore with hcases | rfl
    · cases hcases
    obtain ⟨t, ht, hnumber, hempty, hfree⟩ := close_eq_shut hs hx hclosed
    show Idle (s.onSession k NinePSession.close) k
    rw [onSession_of_some hx, ht]
    exact idle_replaced hx hnumber hempty hfree

theorem ClosedIdle.run (h : ClosedIdle s) (hs : Sound s) {actions : List Action}
    (hout : ∀ a ∈ actions, a.Outside) : ClosedIdle (s.run actions) := by
  induction actions generalizing s with
  | nil => exact h
  | cons action actions ih =>
    have haction := hout action List.mem_cons_self
    exact ih (h.step hs haction) (hs.step haction) fun a ha => hout a (List.mem_cons_of_mem _ ha)

/-- A session stays idle until a message comes for it. -/
theorem Idle.run (h : Idle s k) (hs : Sound s) {actions : List Action}
    (hout : ∀ a ∈ actions, a.Outside)
    (hquiet : ∀ bytes capacity, .submit k bytes capacity ∉ actions) : Idle (s.run actions) k := by
  induction actions generalizing s with
  | nil => exact h
  | cons action actions ih =>
    have haction := hout action List.mem_cons_self
    refine ih (h.step hs haction ?_) (hs.step haction)
      (fun a ha => hout a (List.mem_cons_of_mem _ ha))
      fun bytes capacity hmem => hquiet bytes capacity (List.mem_cons_of_mem _ hmem)
    rintro bytes capacity rfl
    exact absurd List.mem_cons_self (hquiet bytes capacity)

/-! ## Releasing -/

/-- A fid of the session can be released in any state that a request passes through. -/
theorem release_ok {a : Activation} (hw : WellFormed a.fs) (ha : Held a) {number : UInt32}
    {f : Fid} (hf : a.session.fids[number]? = some f) :
    (Filesystem.releaseFid f.inode a.fs).1 = .ok () := by
  have hpos : 0 < a.fs.refsOf f.inode := (held_pos hf).trans_le (ha f.inode)
  obtain ⟨n, hn, hrefs⟩ := Filesystem.get_of_refsOf_pos hpos
  rw [Filesystem.releaseFid_yields hw hn (by omega)]

theorem puts_err {w : Writer} {body : List UInt8} {r : Wire Writer} {e : UInt32}
    (h : w.Puts body r) (he : r = .err e) : e = ENOSPC := by
  rcases h with hfull | ⟨w', hok, -⟩
  · rw [hfull] at he
    cases he
    rfl
  · rw [hok] at he
    cases he

theorem string_err {w : Writer} {value : String} {e : UInt32} (h : w.string value = .err e) :
    e = ENOSPC := by
  unfold Writer.string at h
  split at h
  · cases h
    rfl
  · rcases w.u16_puts (UInt16.ofNat value.utf8ByteSize) with hfull | ⟨w', hok, -⟩
    · rw [hfull] at h
      cases h
      rfl
    · rw [hok, Outcome.ok_bind] at h
      exact puts_err (w'.append_puts _) h

theorem version_ne_EIO {a : Activation} (hw : WellFormed a.fs) (ha : Held a) (tag : UInt16)
    (size : UInt32) (name : String) (reply : Writer) :
    (version tag size name reply a).1 ≠ .err EIO := by
  unfold version
  by_cases htag : tag ≠ NOTAG
  · rw [if_pos htag]
    exact fun h => absurd (Outcome.err.inj h) (by decide)
  rw [if_neg htag]
  by_cases hsmall : min size.toNat maxMessageSize < 256
  · rw [if_pos hsmall]
    exact fun h => absurd (Outcome.err.inj h) (by decide)
  have hword : min size.toNat maxMessageSize ≤ u32Max :=
    (Nat.min_le_right _ _).trans (by decide)
  rw [if_neg hsmall, Op.bind_ok (Op.lift_ok (expectU32_eq hword) a)]
  cases hu : reply.u32 (UInt32.ofNat (min size.toNat maxMessageSize)) with
  | panic => exact absurd hu (reply.u32_puts _).ne_panic
  | err e =>
    rw [puts_err (reply.u32_puts _) hu]
    exact fun h => absurd (Outcome.err.inj h) (by decide)
  | ok w =>
    rw [Op.bind_ok (Op.lift_ok rfl a)]
    cases hstring : w.string (if name = "9P2000.L" then name else "unknown") with
    | panic => exact absurd hstring (w.string_appends _).ne_panic
    | err e =>
      rw [string_err hstring]
      exact fun h => absurd (Outcome.err.inj h) (by decide)
    | ok w' =>
      obtain ⟨_, t, ht, -⟩ := releaseFids_yields hw ha
      have hattempt : (Op.attempt releaseFids : SessionOp UInt32 (Except ProtocolError Unit)) a =
          (.ok (.ok ()), t) := by rw [Op.attempt, ht]
      rw [Op.bind_ok (Op.lift_ok rfl a), Op.bind_ok hattempt]
      exact fun h => by cases h

theorem refusal_ne_invariant {tag : UInt16} {capacity : Nat}
    {answer : Outcome ProtocolError (List UInt8)} (h : Refusal tag capacity answer) :
    answer ≠ .err .invariant := by
  rcases h with rfl | rfl | ⟨reply, rfl, -⟩ <;> simp

theorem checkIdentity_ne_invariant {a : Activation} {e : ProtocolError}
    (h : checkIdentity a = .err e) : e ≠ .invariant := by
  unfold checkIdentity at h
  split_ifs at h
  · cases h
    decide
  · cases h
    decide

theorem submit_ne_invariant {a : Activation} (hw : WellFormed a.fs) (hsized : a.session.Sized)
    (bytes : List UInt8) (capacity : Nat) :
    (NinePSession.submit bytes capacity a).1 ≠ .err .invariant := by
  cases hcheck : checkIdentity a with
  | panic => exact absurd hcheck (checkIdentity_ne_panic a)
  | err e =>
    rw [submit_of_refused hcheck]
    simpa using checkIdentity_ne_invariant hcheck
  | ok _ =>
    rcases submit_ended hw hsized hcheck bytes capacity with hmalformed | ⟨_, _, -, -, hended⟩
    · rw [hmalformed]
      simp
    · generalize (NinePSession.submit bytes capacity a).1 = answer at hended
      cases hended with
      | refused hrefusal hkept => exact refusal_ne_invariant hrefusal
      | served hserved => simp

theorem reset_ne_invariant {a : Activation} (hw : WellFormed a.fs) (hcovered : Covered a) :
    (NinePSession.reset a).1 ≠ .err .invariant := by
  cases hcheck : checkIdentity a with
  | panic => exact absurd hcheck (checkIdentity_ne_panic a)
  | err e =>
    rw [reset_of_refused hcheck]
    simpa using checkIdentity_ne_invariant hcheck
  | ok _ =>
    obtain ⟨_, t, ht, -⟩ := reset_yields hw hcovered hcheck
    rw [ht]
    simp

theorem close_ne_invariant {a : Activation} (hw : WellFormed a.fs) (hcovered : Covered a) :
    (NinePSession.close a).1 ≠ .err .invariant := by
  cases hclosed : a.session.closed with
  | true =>
    unfold NinePSession.close
    rw [Op.bind_ok (Op.get_apply a), if_pos hclosed]
    split <;> simp
  | false =>
    rw [close_eq hclosed]
    cases hcheck : checkIdentity a with
    | panic => exact absurd hcheck (checkIdentity_ne_panic a)
    | err e =>
      rw [Op.bind_err (reset_of_refused hcheck)]
      simpa using checkIdentity_ne_invariant hcheck
    | ok _ =>
      obtain ⟨_, t, ht, -⟩ := reset_yields hw hcovered hcheck
      rw [Op.bind_ok ht]
      simp

/-- A count that can be raised lets the fid replace the old one. -/
theorem installFid_ok {a : Activation} (hw : WellFormed a.fs) (ha : Held a) {number : UInt32}
    {fid : Fid} (h : (Filesystem.retainFid fid.inode a.fs).1 = .ok ()) :
    (installFid number fid a).1 = .ok () := by
  obtain ⟨n, hn, hle, -⟩ := (Filesystem.retainFid_ends a.fs fid.inode).of_ok h
  rw [installFid_eq hn hle]
  cases hold : a.session.fids[number]? with
  | none => rfl
  | some old =>
    obtain ⟨m, hm, hpos⟩ := old_counted ha hn hold
    have hw' := (installed_reached a number hn hle).wellFormed hw
    dsimp only
    rw [calling, onFs_ok (Filesystem.releaseFid_yields hw' hm hpos)]

/-- The three places where a request releases fids. -/
structure Releasable (a : Activation) : Prop where
  one : ∀ (number : UInt32) (f : Fid), a.session.fids[number]? = some f →
    (Filesystem.releaseFid f.inode a.fs).1 = .ok ()
  all : (releaseFids a).1 = .ok ()
  replaced : ∀ (number : UInt32) (f : Fid), (Filesystem.retainFid f.inode a.fs).1 = .ok () →
    (installFid number f a).1 = .ok ()

theorem releasable {a : Activation} (hw : WellFormed a.fs) (ha : Held a) : Releasable a where
  one := fun _ _ hf => release_ok hw ha hf
  all := by
    obtain ⟨_, t, ht, -⟩ := releaseFids_yields hw ha
    rw [ht]
  replaced := fun _ _ h => installFid_ok hw ha h

/-- The state in which a request of the session begins. -/
def begun (a : Activation) : Activation := sourced (synced a) .guest

theorem begun_wellFormed {a : Activation} (hw : WellFormed a.fs) : WellFormed (begun a).fs :=
  sourced_wellFormed ((synced_fs a).symm ▸ hw) .guest

/-! ## The namespace that replaced another -/

/-- A session that has not seen the namespace works as one without fids. -/
theorem submit_of_stale {a : Activation} (hstale : a.session.generation ≠ a.fs.generation)
    (bytes : List UInt8) (capacity : Nat) :
    (NinePSession.submit bytes capacity a).1 =
        (NinePSession.submit bytes capacity { a with session := a.session.withFids ∅ }).1 ∧
      (NinePSession.submit bytes capacity a).2.fs =
        (NinePSession.submit bytes capacity { a with session := a.session.withFids ∅ }).2.fs := by
  have hsynced : synced { a with session := a.session.withFids ∅ } = synced a := by
    rw [synced_of_stale hstale]
    exact synced_of_stale hstale
  have hsame : checkIdentity { a with session := a.session.withFids ∅ } = checkIdentity a := rfl
  cases hcheck : checkIdentity a with
  | panic => exact absurd hcheck (checkIdentity_ne_panic a)
  | err e =>
    rw [submit_of_refused hcheck, submit_of_refused (hsame.trans hcheck)]
    exact ⟨rfl, rfl⟩
  | ok _ =>
    have heq : NinePSession.submit bytes capacity a =
        NinePSession.submit bytes capacity { a with session := a.session.withFids ∅ } := by
      unfold NinePSession.submit
      rw [Op.bind_ok (syncGeneration_eq hcheck),
        Op.bind_ok (syncGeneration_eq (hsame.trans hcheck)), hsynced]
    rw [heq]
    exact ⟨rfl, rfl⟩

theorem reset_of_stale_fs {a : Activation} (hstale : a.session.generation ≠ a.fs.generation) :
    (NinePSession.reset a).2.fs = a.fs := by
  cases hcheck : checkIdentity a with
  | panic => exact absurd hcheck (checkIdentity_ne_panic a)
  | err e => rw [reset_of_refused hcheck]
  | ok _ => rw [reset_of_stale hcheck hstale]

theorem close_of_stale_fs {a : Activation} (hstale : a.session.generation ≠ a.fs.generation) :
    (NinePSession.close a).2.fs = a.fs := by
  cases hclosed : a.session.closed with
  | true => rw [close_of_closed hclosed]
  | false =>
    rw [close_eq hclosed]
    cases hcheck : checkIdentity a with
    | panic => exact absurd hcheck (checkIdentity_ne_panic a)
    | err e => rw [Op.bind_err (reset_of_refused hcheck)]
    | ok _ =>
      rw [Op.bind_ok (reset_of_stale hcheck hstale)]
      rfl

theorem reset_generation {fs : Filesystem} (h : (Filesystem.reset fs).1 = .ok ()) :
    (Op.after Filesystem.reset fs).generation = fs.generation + 1 := by
  obtain ⟨-, he⟩ := (Filesystem.reset_ends fs).of_ok h
  obtain ⟨change, changes, -, -, -, heq, -⟩ := he
  rw [heq]
  rfl

/-! ## Results -/

/-- Counts, fids and locks agree, whatever the sessions do next. -/
structure Consistent (s : Shared) : Prop where
  /-- The count of an inode is the number of fids that name it. -/
  counted : ∀ (i : InodeId) (n : Inode), s.fs.inodes[i]? = some n → n.fidRefs = s.held i
  bounded : ∀ x ∈ s.sessions, x.fids.size ≤ maxFids ∧ x.fids[NOFID]? = none
  /-- No release fails in any state that a request passes through. -/
  releasable : ∀ x ∈ s.sessions, ∀ a, Served (begun (s.activate x)) a → Releasable a
  possible : ∀ x ∈ s.sessions,
    (∀ bytes capacity, (submit bytes capacity (s.activate x)).1 ≠ .err .invariant) ∧
      (NinePSession.reset (s.activate x)).1 ≠ .err .invariant ∧
      (NinePSession.close (s.activate x)).1 ≠ .err .invariant
  version : ∀ x ∈ s.sessions, ∀ tag size name reply,
    (version tag size name reply (begun (s.activate x))).1 ≠ .err EIO
  /-- Fids of an older namespace name nothing in this one. -/
  stale : ∀ x ∈ s.sessions, x.generation ≠ s.fs.generation →
    (∀ bytes capacity, (submit bytes capacity (s.activate x)).1 =
        (submit bytes capacity (s.activate (x.withFids ∅))).1 ∧
      (submit bytes capacity (s.activate x)).2.fs =
        (submit bytes capacity (s.activate (x.withFids ∅))).2.fs) ∧
      (NinePSession.reset (s.activate x)).2.fs = s.fs ∧
      (NinePSession.close (s.activate x)).2.fs = s.fs
  renewed : (Filesystem.reset s.fs).1 = .ok () → ∀ x ∈ s.sessions,
    x.generation ≠ (Op.after Filesystem.reset s.fs).generation
  closed : ∀ (k : Nat) (x : NinePSession), s.sessions[k]? = some x → x.closed = true → Idle s k
  /-- A session that was reset stays idle until a message comes for it. -/
  reset : ∀ (k : Nat) (x : NinePSession), s.sessions[k]? = some x → ∀ actions : List Action,
    (∀ a ∈ actions, a.Outside) → (∀ bytes capacity, .submit k bytes capacity ∉ actions) →
      Idle ((s.step (.reset k)).run actions) k

theorem Served.held {a t : Activation} (h : Served a t) (ha : Held a) : Held t :=
  (h.counted ha).held ha

theorem Sound.consistent (h : Sound s) (hclosed : ClosedIdle s) : Consistent s where
  counted := fun i n hn => (Filesystem.refsOf_of_get hn).symm.trans (h.counted i)
  bounded := h.bounded
  releasable := by
    intro x hx a hserved
    have hw := begun_wellFormed (a := s.activate x) h.wellFormed
    exact Shared.releasable (hserved.reached.wellFormed hw)
      ((hserved.counted (h.covered hx).held).held (h.covered hx).held)
  possible := fun x hx =>
    ⟨fun bytes capacity => submit_ne_invariant h.wellFormed (h.sized x hx) bytes capacity,
      reset_ne_invariant h.wellFormed (h.covered hx), close_ne_invariant h.wellFormed (h.covered hx)⟩
  version := fun x hx tag size name reply =>
    version_ne_EIO (begun_wellFormed (a := s.activate x) h.wellFormed) (h.covered hx).held tag size
      name reply
  stale := fun x _ hstale =>
    ⟨fun bytes capacity => submit_of_stale (a := s.activate x) hstale bytes capacity,
      reset_of_stale_fs (a := s.activate x) hstale, close_of_stale_fs (a := s.activate x) hstale⟩
  renewed := by
    intro hreset x hx
    have hpast := h.past x hx
    rw [reset_generation hreset]
    omega
  closed := hclosed
  reset := by
    intro k x hx actions hout hquiet
    have hidle : Idle (s.step (.reset k)) k := by
      cases hopen : x.closed with
      | false => exact reset_idle h hx hopen
      | true => exact (hclosed k x hx hopen).step h trivial fun _ _ heq => by cases heq
    exact hidle.run (h.step trivial) hout hquiet

/-- Counts, fids and locks agree in every reached state. -/
theorem run_consistent (identity : Nat) (limits : Limits) (now : UInt64) (actions : List Action)
    (hout : ∀ a ∈ actions, a.Outside) : Consistent ((start identity limits now).run actions) := by
  have hs := start_sound identity limits now
  have hclosed : ClosedIdle (start identity limits now) := fun k x hx _ => by cases hx
  exact (hs.run hout).consistent (hclosed.run hs hout)

theorem run_consistent_reset : Consistent ((start 1 .default 0).run
    [.connect, .host .clear, .reset 0, .host .reset, .close 0]) := by
  refine run_consistent _ _ _ _ fun a ha => ?_
  simp only [List.mem_cons, List.not_mem_nil, or_false] at ha
  rcases ha with rfl | rfl | rfl | rfl | rfl <;> simp [Action.Outside]

end Shared

end Riscbox

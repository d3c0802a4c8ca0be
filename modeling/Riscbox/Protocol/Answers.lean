import Riscbox.Protocol.Fids

/-!
# Every request is answered or refused

One lemma for each request: it does not panic, what it appends to the reply is in front
of nothing else, and it serves or refuses as `Served` and `Torn` say.  A request that
changes the namespace has the room for its whole reply before it does.
-/

namespace Riscbox

open NinePSession
open Filesystem (WellFormed Call)

/-- The reply has grown, and the request was served. -/
def Answered (a : Activation) (reply w : Writer) (t : Activation) : Prop :=
  reply.Grows w ∧ Served a t

def Answers (a : Activation) (reply : Writer) (x : SessionOp UInt32 Writer) : Prop :=
  x.Settles a (Torn a) (Answered a reply)

theorem Answered.refl (a : Activation) (reply : Writer) : Answered a reply reply a :=
  ⟨.refl reply, .refl a⟩

theorem answers_fail {a : Activation} {reply : Writer} (e : UInt32) :
    Answers a reply (Op.fail e) := Op.settles_fail e

/-- A request that only reads. -/
theorem reading_answers {a : Activation} {reply : Writer} {f : Activation → Wire Writer}
    (h : reply.Appends (f a)) : Answers a reply (Op.reading f) := by
  unfold Answers Op.Settles
  rw [Op.reading_apply]
  cases hf : f a with
  | ok w =>
    rw [hf] at h
    exact ⟨h, .refl a⟩
  | err e => exact .inl rfl
  | panic =>
    rw [hf] at h
    exact h

/-- A request that answers with a bare header. -/
theorem answering_answers {a : Activation} {reply : Writer} {x : SessionOp UInt32 Unit}
    (h : x.Settles a (Torn a) fun _ t => Served a t) : Answers a reply (answering x reply) :=
  Op.Settles.bind h fun _ _ ht => .inl (Op.yields_pure ⟨.refl reply, ht⟩)

/-! ## Checks -/

theorem fid_ne_panic (number : UInt32) (a : Activation) : fid number a ≠ .panic :=
  Outcome.okOr_ne_panic _ _

theorem fid_eq_ok {number : UInt32} {a : Activation} {f : Fid} (h : fid number a = .ok f) :
    a.session.fids[number]? = some f := Outcome.okOr_eq_ok.mp h

theorem inode_ne_panic (id : InodeId) (a : Activation) : inode id a ≠ .panic :=
  Outcome.okOr_ne_panic _ _

theorem inode_eq_ok {id : InodeId} {a : Activation} {n : Inode} (h : inode id a = .ok n) :
    a.fs.inodes[id]? = some n := Outcome.okOr_eq_ok.mp h

theorem inode_of_get {id : InodeId} {a : Activation} {n : Inode}
    (h : a.fs.inodes[id]? = some n) : inode id a = .ok n := Outcome.okOr_eq_ok.mpr h

theorem directory_ne_panic (number : UInt32) (a : Activation) : directory number a ≠ .panic := by
  refine Outcome.bind_ne_panic (fid_ne_panic number a) fun f _ => ?_
  refine Outcome.bind_ne_panic (inode_ne_panic f.inode a) fun n _ => ?_
  split <;> simp

theorem directory_eq_ok {number : UInt32} {a : Activation} {f : Fid}
    (h : directory number a = .ok f) : a.session.fids[number]? = some f ∧
      ∃ n, a.fs.inodes[f.inode]? = some n ∧ n.kind.isDirectory = true := by
  obtain ⟨f', hf, h⟩ := Outcome.bind_eq_ok.mp h
  obtain ⟨n, hn, h⟩ := Outcome.bind_eq_ok.mp h
  split at h
  next hdir =>
    cases h
    exact ⟨fid_eq_ok hf, n, inode_eq_ok hn, hdir⟩
  next => cases h

theorem opened_ne_panic (number : UInt32) (a : Activation) : opened number a ≠ .panic := by
  refine Outcome.bind_ne_panic (fid_ne_panic number a) fun f _ => ?_
  exact Outcome.bind_ne_panic (Outcome.okOr_ne_panic _ _) fun flags _ => by simp

theorem opened_eq_ok {number : UInt32} {a : Activation} {f : Fid} {flags : OpenFlags}
    (h : opened number a = .ok (f, flags)) :
    a.session.fids[number]? = some f ∧ f.opened = some flags := by
  obtain ⟨f', hf, h⟩ := Outcome.bind_eq_ok.mp h
  obtain ⟨flags', hflags, h⟩ := Outcome.bind_eq_ok.mp h
  cases h
  exact ⟨fid_eq_ok hf, Outcome.okOr_eq_ok.mp hflags⟩

theorem checkNewFid_ne_panic (number : UInt32) (a : Activation) :
    checkNewFid number a ≠ .panic := by
  unfold checkNewFid
  split_ifs <;> simp

theorem checkNewFid_eq_ok {number : UInt32} {a : Activation}
    (h : checkNewFid number a = .ok ()) : a.session.Vacant number := by
  unfold checkNewFid at h
  split_ifs at h with h₁ h₂ h₃
  exact ⟨h₁, .inr (Nat.lt_of_not_le h₃)⟩

theorem access_ne_panic (raw : UInt32) : OpenFlags.access? raw ≠ .panic := by
  unfold OpenFlags.access?
  dsimp only
  split_ifs <;> simp

theorem parse_ne_panic (raw : UInt32) : OpenFlags.parse raw ≠ .panic := by
  unfold OpenFlags.parse
  split
  · simp
  · refine Outcome.bind_ne_panic (access_ne_panic raw) fun access _ => ?_
    dsimp only
    split_ifs <;> simp

theorem child_ne_panic (fs : Filesystem) (parent : InodeId) (name : String) :
    fs.child parent name ≠ .panic := by
  refine Outcome.bind_ne_panic (Filesystem.checkName_ne_panic name) fun _ _ => ?_
  refine Outcome.bind_ne_panic (Filesystem.inodeOf_ne_panic fs parent) fun n _ => ?_
  split
  · exact Outcome.bind_ne_panic (Outcome.okOr_ne_panic _ _) fun _ _ => by simp
  · simp

theorem mapErr_ne_panic {ε ε' α : Type} {f : ε → ε'} {r : Outcome ε α} (h : r ≠ .panic) :
    r.mapErr f ≠ .panic := by
  cases r with
  | ok v => simp
  | err e => simp
  | panic => exact absurd rfl h

theorem expectU32_eq {ε : Type} {value : Nat} (h : value ≤ u32Max) :
    (Writer.expectU32 value : Outcome ε UInt32) = .ok (UInt32.ofNat value) := if_pos h

theorem expectU64_eq {value : Nat} (h : value ≤ u64Max) :
    expectU64 value = .ok (UInt64.ofNat value) := if_pos h

/-! ## Sessions -/

theorem version_answers {a : Activation} (hw : WellFormed a.fs) (tag : UInt16) (size : UInt32)
    (name : String) (reply : Writer) : Answers a reply (version tag size name reply) := by
  unfold version
  by_cases htag : tag ≠ NOTAG
  · rw [if_pos htag]
    exact answers_fail _
  rw [if_neg htag]
  dsimp only
  by_cases hsmall : min size.toNat maxMessageSize < 256
  · rw [if_pos hsmall]
    exact answers_fail _
  rw [if_neg hsmall]
  have hle : min size.toNat maxMessageSize ≤ maxMessageSize := Nat.min_le_right _ _
  refine Op.settles_step (Op.lift_ok (expectU32_eq (hle.trans (by decide))) a) ?_
  refine Op.settles_lift (reply.u32_puts _).ne_panic fun w hw₁ => ?_
  refine Op.settles_lift (w.string_appends _).ne_panic fun w' hw₂ => ?_
  have hgrows : reply.Grows w' :=
    ((reply.u32_puts _).grows hw₁).trans ((w.string_appends _).of_ok hw₂)
  refine Op.Settles.bind (releaseFids_settles hw).attempt.settles fun r t hr => ?_
  cases r with
  | error e =>
    refine .inr ⟨Op.settles_fail _, hr.imp_right fun ht => ?_⟩
    exact ht.1.torn_of_unheld ht.2
  | ok u =>
    left
    obtain ⟨hserved, -, -⟩ := hr
    refine Op.yields_step (Op.modify_apply _ _) (Op.yields_pure ⟨hgrows, ?_⟩)
    have hdevice := hserved.device
    exact
      { reached := hserved.reached
        device := ⟨hdevice.identity, hdevice.generation, hdevice.session, hdevice.closed,
          fun _ => ⟨Nat.le_of_not_lt hsmall, hle⟩⟩
        counted := fun h => ⟨(hserved.counted h).refs, (hserved.counted h).fids,
          (hserved.counted h).tags⟩ }

/-- A fid is installed, and the reply is ready. -/
theorem install_answers {a : Activation} (hw : WellFormed a.fs) {number : UInt32} {f : Fid}
    (hplace : a.session.FidsBounded → a.session.Vacant number) {reply w : Writer}
    (hgrows : reply.Grows w) :
    Answers a reply (installFid number f >>= fun _ => pure w) :=
  Op.Settles.bind (installFid_settles hw hplace) fun _ _ ht =>
    .inl (Op.yields_pure ⟨hgrows, ht.1⟩)

theorem attach_answers {a : Activation} (hw : WellFormed a.fs) (number afid uid : UInt32)
    (reply : Writer) : Answers a reply (attach number afid uid reply) := by
  unfold attach
  refine Op.settles_reading (checkNewFid_ne_panic number a) fun _ hcheck => ?_
  by_cases hafid : afid ≠ NOFID
  · rw [if_pos hafid]
    exact answers_fail _
  rw [if_neg hafid]
  refine Op.settles_get ?_
  refine Op.settles_lift (inode_ne_panic _ _) fun root _ => ?_
  refine Op.settles_lift (reply.qid_puts root).ne_panic fun w hqid => ?_
  exact install_answers hw (fun _ => checkNewFid_eq_ok hcheck) ((reply.qid_puts root).grows hqid)

/-! ## Walks -/

theorem step_ne_panic (fs : Filesystem) (current : InodeId) (n : Inode) (name : String) :
    step fs current n name ≠ .panic := by
  unfold step
  split
  · split_ifs
    · simp
    · simp
    · exact Outcome.okOr_ne_panic _ _
    · exact mapErr_ne_panic (child_ne_panic fs current name)
  · simp

theorem steps_ne_panic (fs : Filesystem) (names : List String) :
    ∀ current found, steps fs current found names ≠ .panic := by
  induction names with
  | nil =>
    intro current found
    simp [steps]
  | cons name names ih =>
    intro current found
    refine Outcome.bind_ne_panic (Outcome.okOr_ne_panic _ _) fun n _ => ?_
    cases hstep : step fs current n name with
    | ok id => exact ih _ _
    | err e =>
      dsimp only
      split_ifs <;> simp
    | panic => exact absurd hstep (step_ne_panic fs current n name)

/-- A walk finds one inode for each name that it follows. -/
theorem steps_length {fs : Filesystem} {names : List String} :
    ∀ {current last : InodeId} {found all : List InodeId},
      steps fs current found names = .ok (last, all) →
        all.length ≤ found.length + names.length := by
  induction names with
  | nil =>
    intro current last found all h
    cases h
    exact Nat.le_refl _
  | cons name names ih =>
    intro current last found all h
    obtain ⟨n, -, h⟩ := Outcome.bind_eq_ok.mp h
    cases hstep : step fs current n name with
    | ok id =>
      rw [hstep] at h
      have hle := ih h
      rw [List.length_append, List.length_singleton] at hle
      rw [List.length_cons]
      omega
    | err e =>
      rw [hstep] at h
      dsimp only at h
      split_ifs at h
      cases h
      exact Nat.le_add_right _ _
    | panic => exact absurd hstep (step_ne_panic fs current n name)

theorem qids_appends (fs : Filesystem) (found : List InodeId) :
    ∀ reply : Writer, reply.Appends (qids fs found reply) := by
  induction found with
  | nil => exact fun reply => Writer.appends_ok
  | cons id rest ih =>
    intro reply
    refine Writer.appends_lift (Outcome.okOr_ne_panic _ _) fun n _ => ?_
    exact (reply.qid_puts n).appends.bind fun w _ => ih w

theorem walk_answers {a : Activation} (hw : WellFormed a.fs) (number newFid : UInt32)
    {names : List String} (hnames : names.length ≤ Request.maxNames) (reply : Writer) :
    Answers a reply (walk number newFid names reply) := by
  unfold walk
  refine Op.settles_reading (fid_ne_panic number a) fun f hf => ?_
  by_cases hopen : f.opened.isSome = true
  · rw [if_pos hopen]
    exact answers_fail _
  rw [if_neg hopen]
  have hrest : (a.session.FidsBounded → a.session.Vacant newFid) → Answers a reply (do
      let a ← Op.get
      let found ← Op.lift (steps a.fs f.inode [] names)
      let count ← Op.lift (expectU16 found.2.length)
      let reply ← Op.lift (reply.u16 count)
      let reply ← Op.lift (qids a.fs found.2 reply)
      if found.2.length = names.length then installFid newFid { f with inode := found.1 }
      return reply) := by
    intro hplace
    refine Op.settles_get ?_
    refine Op.settles_lift (steps_ne_panic _ _ _ _) fun p hsteps => ?_
    obtain ⟨current, found⟩ := p
    have hlength := steps_length hsteps
    rw [List.length_nil, Nat.zero_add] at hlength
    have hcount : expectU16 found.length = .ok (UInt16.ofNat found.length) := by
      refine if_pos ?_
      rw [Request.maxNames] at hnames
      omega
    dsimp only
    refine Op.settles_step (Op.lift_ok hcount a) ?_
    refine Op.settles_lift (reply.u16_puts _).ne_panic fun w hw₁ => ?_
    refine Op.settles_lift (qids_appends a.fs found w).ne_panic fun w' hw₂ => ?_
    have hgrows : reply.Grows w' :=
      ((reply.u16_puts _).grows hw₁).trans ((qids_appends a.fs found w).of_ok hw₂)
    by_cases hall : found.length = names.length
    · rw [if_pos hall]
      exact install_answers hw hplace hgrows
    · rw [if_neg hall]
      exact Op.Yields.settles (Op.yields_step (Op.pure_apply _ _)
        (Op.yields_pure ⟨hgrows, .refl a⟩))
  by_cases hsame : newFid ≠ number
  · rw [if_pos hsame]
    exact Op.settles_reading (checkNewFid_ne_panic newFid a) fun _ hcheck =>
      hrest fun _ => checkNewFid_eq_ok hcheck
  · rw [if_neg hsame]
    refine Op.settles_step (Op.pure_apply _ _) (hrest fun hbounded => ?_)
    rw [not_not.mp hsame]
    exact hbounded.vacant (fid_eq_ok hf)

end Riscbox

import Riscbox.Protocol.Sessions

/-!
# What a client can rely on

A refused request changes nothing, the totals of the namespace are right, and every message
has a reply that is framed and bounded.
-/

namespace Riscbox

open NinePSession
open Filesystem (WellFormed Call)

namespace Shared

/-! ## Requests that fail -/

/-- An error, or an error reply. -/
def Fails (answer : Outcome ProtocolError (List UInt8)) : Prop :=
  (∃ e, answer = .err e) ∨ ∃ reply, answer = .ok reply ∧ reply[4]? = some 7

/-- The totals of the namespace, and the subtractions that rest on them. -/
structure Balanced (fs : Filesystem) : Prop where
  logicalBytes : fs.logicalBytes = BTreeMap.total (fun _ n => n.kind.bodyLength) fs.inodes
  directoryEntries : fs.directoryEntries =
    BTreeMap.total (fun _ n => n.kind.entries.size) fs.inodes
  treeBytes : fs.logicalBytes ≤ fs.limits.maxTreeBytes
  fileBytes : ∀ (i : InodeId) (n : Inode), fs.inodes[i]? = some n →
    n.kind.bodyLength ≤ fs.limits.maxFileBytes
  entries : fs.directoryEntries ≤ fs.limits.maxDirectoryEntries
  inodes : fs.inodes.size ≤ max 1 fs.limits.maxInodes
  /-- A body is part of the total. -/
  oldBytes : ∀ (i : InodeId) (n : Inode), fs.inodes[i]? = some n →
    n.kind.bodyLength ≤ fs.logicalBytes
  /-- A name is one of the entries, and one of the links. -/
  named : ∀ (p : InodeId) (name : String) (e : DirectoryEntry), fs.entry p name = some e →
    1 ≤ fs.directoryEntries ∧ ∃ n, fs.inodes[e.inode]? = some n ∧ 1 ≤ n.linkCount
  space : fs.spaceUsage.usedBytes ≤ fs.spaceUsage.maximumBytes
  calls : ∀ call : Call, (call.run fs).1 ≠ .panic

theorem linkCount_pos {fs : Filesystem} (h : Filesystem.Linked fs) {p : InodeId} {name : String}
    {e : DirectoryEntry} (he : fs.entry p name = some e) :
    ∃ n, fs.inodes[e.inode]? = some n ∧ 1 ≤ n.linkCount := by
  obtain ⟨n, hn⟩ := h.entry_stored he
  have hmem := h.entry_linked he
  refine ⟨n, hn, ?_⟩
  rw [h.linkCount_eq hn (h.entry_ne_root he), Nat.one_le_iff_ne_zero]
  intro hzero
  rw [BTreeSet.eq_empty_of_size hzero] at hmem
  exact Std.ExtTreeSet.not_mem_empty hmem

theorem balanced {fs : Filesystem} (hw : WellFormed fs) : Balanced fs where
  logicalBytes := hw.account.logicalBytes_eq
  directoryEntries := hw.account.directoryEntries_eq
  treeBytes := hw.account.logicalBytes_le
  fileBytes := fun _ _ hn => hw.account.body_le hn
  entries := hw.account.directoryEntries_le
  inodes := hw.account.inodes_le
  oldBytes := fun _ _ hn => hw.account.body_le_logicalBytes hn
  named := fun _ _ _ he => ⟨hw.account.directoryEntries_pos he, linkCount_pos hw.tree.toLinked he⟩
  space := hw.account.logicalBytes_le
  calls := fun call => (call.ends hw).ne_panic

/-- The totals are right after every run of operations and requests. -/
theorem run_balanced (identity : Nat) (limits : Limits) (now : UInt64) (actions : List Action) :
    Balanced ((start identity limits now).run actions).fs :=
  balanced ((start_stable identity limits now).run actions).wellFormed

/-! ## Replies -/

/-- A reply to a message: framed, bounded, with its tag, and of its type or an error. -/
structure Replies (a : Activation) (bytes : List UInt8) (capacity : Nat) (reply : List UInt8) :
    Prop where
  bounded : reply.length ≤ min capacity maxMessageSize
  agreed : bytes[4]? ≠ some 100 → reply.length ≤ a.session.msize
  size : reply.take 4 = LittleEndian.encode 4 reply.length
  tag : (reply.drop 5).take 2 = (bytes.drop 5).take 2 ∧ ((reply.drop 5).take 2).length = 2
  kind : ∃ kind, bytes[4]? = some kind ∧
    (reply[4]? = some (kind + 1) ∨ (reply[4]? = some 7 ∧ reply.length = 11))

theorem replies_of_framed {a : Activation} (hsized : a.session.Sized) {kind kind' : UInt8}
    {tag : UInt16} {bytes reply : List UInt8} {capacity : Nat} (hkind : bytes[4]? = some kind)
    (htag : (bytes.drop 5).take 2 = LittleEndian.encode 2 tag.toNat)
    (hframed : Framed kind' tag reply)
    (hkind' : kind' = kind + 1 ∨ (kind' = 7 ∧ reply.length = 11))
    (hle : reply.length ≤ min capacity (messageLimit (synced a) kind)) :
    Replies a bytes capacity reply := by
  have hlimit := messageLimit_le (synced_sized hsized) kind
  constructor
  case bounded => exact hle.trans (min_le_min_left _ hlimit)
  case agreed =>
    intro hversion
    have hne : kind ≠ 100 := by
      rintro rfl
      exact hversion hkind
    have hmsize : messageLimit (synced a) kind = a.session.msize := by
      rw [messageLimit, if_neg hne, synced_msize]
    rw [← hmsize]
    exact hle.trans (Nat.min_le_right _ _)
  case size => exact hframed.size
  case tag =>
    rw [hframed.tag, htag]
    exact ⟨rfl, LittleEndian.length_encode _ _⟩
  case kind =>
    refine ⟨kind, hkind, ?_⟩
    rw [hframed.kind]
    rcases hkind' with rfl | ⟨rfl, hlength⟩
    · exact .inl rfl
    · exact .inr ⟨rfl, hlength⟩

theorem submit_replies {a : Activation} (hw : WellFormed a.fs) (hsized : a.session.Sized)
    (bytes : List UInt8) (capacity : Nat) : (submit bytes capacity a).1 ≠ .panic ∧
      ∀ reply, (submit bytes capacity a).1 = .ok reply → Replies a bytes capacity reply := by
  cases hcheck : checkIdentity a with
  | panic => exact absurd hcheck (checkIdentity_ne_panic a)
  | err e =>
    rw [submit_of_refused hcheck]
    exact ⟨by simp, fun reply h => by cases h⟩
  | ok _ =>
    rcases submit_ended hw hsized hcheck bytes capacity with
      hmalformed | ⟨kind, tag, hkind, htag, hended⟩
    · rw [hmalformed]
      exact ⟨by simp, fun reply h => by cases h⟩
    · generalize (submit bytes capacity a).1 = answer at hended
      cases hended with
      | refused hrefusal hkept =>
        rcases hrefusal with rfl | rfl | ⟨reply, rfl, hframed, hlength, hle⟩
        · exact ⟨by simp, fun reply h => by cases h⟩
        · exact ⟨by simp, fun reply h => by cases h⟩
        · refine ⟨by simp, fun reply' h => ?_⟩
          cases h
          exact replies_of_framed hsized hkind htag hframed (.inr ⟨rfl, hlength⟩) hle
      | served hserved hknown hframed hle =>
        refine ⟨by simp, fun reply' h => ?_⟩
        cases h
        exact replies_of_framed hsized hkind htag hframed (.inl rfl) hle

end Shared

/-! ## Endpoints -/

/-- The source's `NinePEndpoint`: a session that stops after a protocol error. -/
structure SharedEndpoint where
  session : NinePSession
  failed : Bool

namespace SharedEndpoint

def isErr {ε α : Type} : Outcome ε α → Bool
  | .err _ => true
  | _ => false

/-- A call of the session on the shared namespace; an error marks the endpoint. -/
def marking {α : Type} (x : SessionOp ProtocolError α) :
    Op (SharedEndpoint × Filesystem) ProtocolError α := fun (endpoint, fs) =>
  let (result, t) := x { session := endpoint.session, fs := fs }
  (result, { session := t.session, failed := isErr result }, t.fs)

theorem marking_failed {α : Type} (x : SessionOp ProtocolError α)
    (s : SharedEndpoint × Filesystem) :
    (marking x s).2.1.failed = isErr (marking x s).1 := rfl

def submit (request : List UInt8) (capacity : Nat) :
    Op (SharedEndpoint × Filesystem) ProtocolError (List UInt8) := do
  let (endpoint, _) ← Op.get
  if endpoint.failed then Op.fail .closed
  else marking (NinePSession.submit request capacity)

/-- Only the mark is left of the result. -/
def reset : Op (SharedEndpoint × Filesystem) ProtocolError Unit := do
  let _ ← Op.attempt (marking NinePSession.reset)
  return ()

/-- A request and the namespace as the endpoint finds it. -/
structure Arrival where
  fs : Filesystem
  request : List UInt8
  capacity : Nat

/-- The answers to requests, one after the other. -/
def answers (endpoint : SharedEndpoint) : List Arrival → List (Outcome ProtocolError (List UInt8))
  | [] => []
  | arrival :: rest =>
    let (answer, after, _) := submit arrival.request arrival.capacity (endpoint, arrival.fs)
    answer :: after.answers rest

theorem submit_of_failed {endpoint : SharedEndpoint} (h : endpoint.failed = true)
    (fs : Filesystem) (request : List UInt8) (capacity : Nat) :
    submit request capacity (endpoint, fs) = (.err .closed, endpoint, fs) := by
  unfold submit
  rw [Op.bind_ok (Op.get_apply _)]
  exact congrFun (if_pos h) _

theorem answers_of_failed {endpoint : SharedEndpoint} (h : endpoint.failed = true)
    (arrivals : List Arrival) : ∀ answer ∈ endpoint.answers arrivals, answer = .err .closed := by
  induction arrivals with
  | nil =>
    intro answer hmem
    cases hmem
  | cons arrival rest ih =>
    intro answer hmem
    rw [answers, submit_of_failed h] at hmem
    rcases List.mem_cons.mp hmem with rfl | hmem
    · rfl
    · exact ih answer hmem

/-- An error marks the endpoint. -/
theorem failed_of_err {endpoint : SharedEndpoint} {fs : Filesystem} {request : List UInt8}
    {capacity : Nat} {e : ProtocolError}
    (h : (submit request capacity (endpoint, fs)).1 = .err e) :
    (submit request capacity (endpoint, fs)).2.1.failed = true := by
  cases hfailed : endpoint.failed with
  | true => rw [submit_of_failed hfailed, hfailed]
  | false =>
    have heq : submit request capacity (endpoint, fs) =
        marking (NinePSession.submit request capacity) (endpoint, fs) := by
      unfold submit
      rw [Op.bind_ok (Op.get_apply _)]
      exact congrFun (if_neg (by rw [hfailed]; exact Bool.false_ne_true)) _
    rw [heq] at h ⊢
    rw [marking_failed, h]
    rfl

end SharedEndpoint

namespace Shared

/-- A message in a reached session and namespace does not panic, its reply is well formed,
and an endpoint that answered an error stays closed. -/
theorem submit_bounded (identity identity' : Nat) (limits limits' : Limits) (now now' : UInt64)
    (actions actions' : List Action) {x : NinePSession}
    (hx : x ∈ ((start identity' limits' now').run actions').sessions) (bytes : List UInt8)
    (capacity : Nat) :
    (submit bytes capacity (((start identity limits now).run actions).activate x)).1 ≠ .panic ∧
      (∀ reply, (submit bytes capacity
          (((start identity limits now).run actions).activate x)).1 = .ok reply →
        Replies (((start identity limits now).run actions).activate x) bytes capacity reply) ∧
      ∀ (endpoint : SharedEndpoint) (fs : Filesystem) (e : ProtocolError)
        (arrivals : List SharedEndpoint.Arrival),
        (SharedEndpoint.submit bytes capacity (endpoint, fs)).1 = .err e →
          ∀ answer ∈ (SharedEndpoint.submit bytes capacity (endpoint, fs)).2.1.answers arrivals,
            answer = .err .closed := by
  have hs := (start_stable identity limits now).run actions
  have hs' := (start_stable identity' limits' now').run actions'
  obtain ⟨hpanic, hreplies⟩ := submit_replies
    (a := ((start identity limits now).run actions).activate x) hs.wellFormed (hs'.sized x hx)
    bytes capacity
  exact ⟨hpanic, hreplies, fun endpoint fs e arrivals h =>
    SharedEndpoint.answers_of_failed (SharedEndpoint.failed_of_err h) arrivals⟩

/-- A version request of 21 bytes to a new session. -/
theorem submit_bounded_version :
    let a := ((start 1 .default 0).run []).activate (created (.new 1 .default 0))
    let bytes := [21, 0, 0, 0, 100, 255, 255, 0, 32, 0, 0, 8, 0, 57, 80, 50, 48, 48, 48, 46, 76]
    (submit bytes 8192 a).1 ≠ .panic ∧
      (∀ reply, (submit bytes 8192 a).1 = .ok reply → Replies a bytes 8192 reply) ∧
      ∀ (endpoint : SharedEndpoint) (fs : Filesystem) (e : ProtocolError)
        (arrivals : List SharedEndpoint.Arrival),
        (SharedEndpoint.submit bytes 8192 (endpoint, fs)).1 = .err e →
          ∀ answer ∈ (SharedEndpoint.submit bytes 8192 (endpoint, fs)).2.1.answers arrivals,
            answer = .err .closed :=
  submit_bounded 1 1 .default .default 0 0 [] [.connect] (List.mem_singleton.mpr rfl) _ 8192

end Shared

end Riscbox

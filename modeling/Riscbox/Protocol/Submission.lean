import Riscbox.Protocol.Dispatch
import Riscbox.Protocol.Grammar

/-!
# A whole submission

What `submit` answers and leaves behind, for every message and every capacity.
-/

namespace Riscbox

open NinePSession
open Filesystem (WellFormed Call)

/-! ## Replies -/

/-- A message of a type and a tag, with its own length in front. -/
structure Framed (kind : UInt8) (tag : UInt16) (reply : List UInt8) : Prop where
  size : reply.take 4 = LittleEndian.encode 4 reply.length
  kind : reply[4]? = some kind
  tag : (reply.drop 5).take 2 = LittleEndian.encode 2 tag.toNat

theorem length_le_u32Max {w : Writer} (h : w.capacity ≤ maxMessageSize) :
    w.bytes.length ≤ u32Max := by
  have hbounded := w.bounded
  rw [maxMessageSize] at h
  rw [u32Max]
  omega

theorem finish_framed {ε : Type} {reply w : Writer} {kind : UInt8} {tag : UInt16}
    (hheader : reply.bytes = Writer.headerBytes kind tag) (hgrows : reply.Grows w)
    (hcap : reply.capacity ≤ maxMessageSize) :
    ∃ bytes, (w.finish : Outcome ε (List UInt8)) = .ok bytes ∧ Framed kind tag bytes ∧
      bytes.length = w.bytes.length ∧ bytes.length ≤ reply.capacity := by
  obtain ⟨body, hext⟩ := hgrows
  have hbytes := hext.bytes
  rw [hheader] at hbytes
  have hdrop : w.bytes.drop 4 = kind :: (LittleEndian.encode 2 tag.toNat ++ body) := by
    rw [hbytes, Writer.headerBytes, List.append_assoc, List.drop_left' (by simp)]
    rfl
  have hlength : (LittleEndian.encode 4 w.bytes.length ++ w.bytes.drop 4).length =
      w.bytes.length := by
    have hfour := w.header
    rw [List.length_append, LittleEndian.length_encode, List.length_drop]
    omega
  refine ⟨_, Writer.finish_eq (length_le_u32Max (hext.capacity ▸ hcap)), ?_, hlength, ?_⟩
  · constructor
    · rw [hlength, List.take_left' (LittleEndian.length_encode _ _)]
    · rw [List.getElem?_append_right (by simp), hdrop, LittleEndian.length_encode]
      rfl
    · rw [hdrop, List.drop_append, LittleEndian.length_encode,
        List.drop_of_length_le (by simp), List.nil_append]
      show (LittleEndian.encode 2 tag.toNat ++ body).take 2 = _
      rw [List.take_left' (LittleEndian.length_encode _ _)]
  · rw [hlength, ← hext.capacity]
    exact w.bounded

/-- What a request that is not served is answered with. -/
def Refusal (tag : UInt16) (capacity : Nat) (answer : Outcome ProtocolError (List UInt8)) : Prop :=
  answer = .err .replyTooSmall ∨ answer = .err .malformed ∨
    ∃ reply, answer = .ok reply ∧ Framed 7 tag reply ∧ reply.length = 11 ∧
      reply.length ≤ capacity

theorem error_refusal (tag : UInt16) (errno : UInt32) {capacity : Nat}
    (hcap : capacity ≤ maxMessageSize) : Refusal tag capacity (error tag errno capacity) := by
  unfold error
  by_cases hsmall : capacity < 7
  · rw [Writer.new_err hsmall]
    exact .inl rfl
  obtain ⟨w, hw, hcapacity, hheader⟩ : ∃ w, Writer.new 7 tag capacity = .ok w ∧
      w.capacity = capacity ∧ w.bytes = Writer.headerBytes 7 tag :=
    Writer.new_eq (hcap.trans (by decide)) (Nat.le_of_not_lt hsmall)
  rw [hw, Outcome.mapErr_ok, Outcome.ok_bind]
  rcases w.u32_puts errno with hfull | ⟨w', hw', hext⟩
  · rw [hfull]
    exact .inl rfl
  · rw [hw', Outcome.mapErr_ok, Outcome.ok_bind]
    obtain ⟨reply, hreply, hframed, hlength, hle⟩ := finish_framed (ε := ProtocolError) hheader
      ⟨_, hext⟩ (hcapacity ▸ hcap)
    refine .inr (.inr ⟨reply, hreply, hframed, ?_, hcapacity ▸ hle⟩)
    rw [hlength, hext.length, hheader, Writer.length_headerBytes, LittleEndian.length_encode]

theorem refuse_refusal (header : Header) (errno : UInt32) {capacity : Nat}
    (hcap : capacity ≤ maxMessageSize) :
    Refusal header.tag capacity (refuse header errno capacity) := by
  unfold refuse
  split
  · exact .inr (.inl rfl)
  · exact error_refusal _ _ hcap

/-! ## The generation -/

/-- The state after the fids of an older namespace are dropped. -/
def synced (a : Activation) : Activation :=
  if a.session.generation ≠ a.fs.generation then
    { a with session := { a.session with fids := ∅, generation := a.fs.generation } }
  else a

theorem synced_fs (a : Activation) : (synced a).fs = a.fs := by
  unfold synced
  split <;> rfl

theorem synced_generation (a : Activation) : (synced a).session.generation = a.fs.generation := by
  unfold synced
  split
  next => rfl
  next h => exact not_not.mp h

theorem synced_of_current {a : Activation} (h : a.session.generation = a.fs.generation) :
    synced a = a := if_neg (not_not.mpr h)

theorem synced_of_stale {a : Activation} (h : a.session.generation ≠ a.fs.generation) :
    synced a =
      { a with session := { a.session with fids := ∅, generation := a.fs.generation } } := if_pos h

theorem synced_msize (a : Activation) : (synced a).session.msize = a.session.msize := by
  unfold synced
  split <;> rfl

theorem synced_negotiated (a : Activation) :
    (synced a).session.negotiated = a.session.negotiated := by
  unfold synced
  split <;> rfl

theorem syncGeneration_eq {a : Activation} (h : checkIdentity a = .ok ()) :
    syncGeneration a = (.ok (), synced a) := by
  unfold syncGeneration synced
  rw [Op.bind_ok (Op.reading_ok h), Op.bind_ok (Op.get_apply a)]
  split <;> rfl

theorem syncGeneration_err {a : Activation} {e : ProtocolError} (h : checkIdentity a = .err e) :
    syncGeneration a = (.err e, a) := by
  unfold syncGeneration
  exact Op.bind_err (by rw [Op.reading_apply, h])

theorem checkIdentity_ne_panic (a : Activation) : checkIdentity a ≠ .panic := by
  unfold checkIdentity
  split_ifs <;> simp

/-! ## The guest as the source of changes -/

def sourced (a : Activation) (source : ChangeSource) : Activation :=
  { a with fs := { a.fs with mutationSource := source } }

theorem sourced_served {a : Activation} (hw : WellFormed a.fs) (source : ChangeSource) :
    Served a (sourced a source) :=
  Served.call (c := .setMutationSource source) hw rfl (.inl rfl)

theorem sourced_wellFormed {a : Activation} (hw : WellFormed a.fs) (source : ChangeSource) :
    WellFormed (sourced a source).fs := (sourced_served hw source).reached.wellFormed hw

/-- What the request does, between the two changes of the source. -/
theorem run_eq (request : Request) (header : Header) (capacity : Nat) (reply : Writer)
    (a : Activation) : run request header capacity reply a =
      match execute request header.tag capacity reply (sourced a .guest) with
      | (.ok w, t) => (w.finish, sourced t a.fs.mutationSource)
      | (.err e, t) => (error header.tag e capacity, sourced t a.fs.mutationSource)
      | (.panic, t) => (.panic, t) := by
  have hguest : onFs (fun _ => ProtocolError.invariant) (Filesystem.setMutationSource .guest) a =
      (.ok (), sourced a .guest) := rfl
  unfold run
  rw [Op.bind_ok (Op.get_apply a), Op.bind_ok hguest, Op.bind_apply, Op.attempt]
  cases hx : execute request header.tag capacity reply (sourced a .guest) with
  | mk r t =>
    cases r with
    | ok w => rfl
    | err e => rfl
    | panic => rfl

theorem sourced_back {a t : Activation} (h : t = sourced a .guest) :
    sourced t a.fs.mutationSource = a := by
  rw [h]
  rfl

theorem held_sourced {a : Activation} (source : ChangeSource) (h : Held a) :
    Held (sourced a source) := h

/-- The request was served between the two changes of the source. -/
theorem served_around {a t : Activation} (hw : WellFormed a.fs)
    (h : Served (sourced a .guest) t) : Served a (sourced t a.fs.mutationSource) := by
  have hguest := sourced_served hw .guest
  have hback := sourced_served (h.reached.wellFormed (hguest.reached.wellFormed hw))
    a.fs.mutationSource
  exact (hguest.trans h).trans hback

/-- How a message of a type and a tag ends: it is refused and changes nothing, unless a
count is at its limit or fids are not counted, or it is served. -/
inductive Ended (a : Activation) (kind : UInt8) (tag : UInt16) (capacity : Nat) :
    Outcome ProtocolError (List UInt8) → Activation → Prop
  | refused {answer : Outcome ProtocolError (List UInt8)} {t : Activation}
      (refusal : Refusal tag capacity answer) (kept : t = a ∨ Torn a t) :
      Ended a kind tag capacity answer t
  | served {reply : List UInt8} {t : Activation} (served : Served a t) (known : kind ≠ 6)
      (framed : Framed (kind + 1) tag reply) (bounded : reply.length ≤ capacity) :
      Ended a kind tag capacity (.ok reply) t

theorem Ended.refuse {a : Activation} {kind : UInt8} {tag : UInt16} {capacity : Nat}
    {answer : Outcome ProtocolError (List UInt8)} (h : Refusal tag capacity answer) :
    Ended a kind tag capacity answer a := .refused h (.inl rfl)

theorem run_ended {a : Activation} (hw : WellFormed a.fs) (hsized : a.session.Sized)
    {request : Request} (hrequest : request.Sized) {header : Header} {reply : Writer}
    (hheader : reply.bytes = Writer.headerBytes (header.kind + 1) header.tag)
    (hroom : request.minimumReply ≤ reply.capacity) (hcap : reply.capacity ≤ maxMessageSize)
    (hknown : header.kind = 6 → request = .unsupported) :
    Ended a header.kind header.tag reply.capacity (run request header reply.capacity reply a).1
      (run request header reply.capacity reply a).2 := by
  have hroomy : Roomy reply request.minimumReply :=
    ⟨by rw [hheader, Writer.length_headerBytes], hroom, hcap⟩
  have hanswers := execute_answers (a := sourced a .guest) (sourced_wellFormed hw .guest) hsized
    hrequest header.tag hroomy
  unfold Answers Op.Settles at hanswers
  rw [run_eq]
  cases hx : execute request header.tag reply.capacity reply (sourced a .guest) with
  | mk r t =>
    rw [hx] at hanswers
    cases r with
    | ok w =>
      obtain ⟨hgrows, hserved⟩ := hanswers
      obtain ⟨bytes, hfinish, hframed, -, hle⟩ := finish_framed (ε := ProtocolError) hheader
        hgrows hcap
      dsimp only
      rw [hfinish]
      refine .served (served_around hw hserved) ?_ hframed hle
      intro hkind
      rw [hknown hkind] at hx
      cases hx
    | err e =>
      dsimp only
      refine .refused (error_refusal _ _ hcap) ?_
      rcases hanswers with rfl | ⟨hserved, htorn⟩
      · exact .inl rfl
      · exact .inr ⟨served_around hw hserved, fun hheld => htorn hheld⟩
    | panic => exact hanswers.elim

/-! ## The header -/

theorem readHeader_ne_panic (bytes : List UInt8) : (readHeader (Reader.new bytes)).1 ≠ .panic := by
  refine Op.Gives.ne_panic (show Op.Gives _ (fun _ => True) from ?_) _
  exact Reader.u32_then fun _ => Reader.u8_gives.bind fun _ _ =>
    Reader.u16_then fun _ => Op.gives_pure trivial

theorem byteCode_eq (value : UInt8) : Reader.byteCode value = [value] := by
  rw [Reader.byteCode, LittleEndian.encode, LittleEndian.encode, UInt8.ofNat_toNat]

/-- The type and the tag of a message are its bytes 4 to 6. -/
theorem readHeader_ok {bytes : List UInt8} {header : Header}
    (h : (readHeader (Reader.new bytes)).1 = .ok header) :
    7 ≤ bytes.length ∧ bytes[4]? = some header.kind ∧
      (bytes.drop 5).take 2 = LittleEndian.encode 2 header.tag.toNat := by
  have hreads := Reader.reads_u32.bind fun declared => Reader.reads_u8.bind fun kind =>
    Reader.reads_u16.last fun tag => ({ declared := declared.toNat, kind, tag } : Header)
  obtain ⟨r, hread⟩ : ∃ r, readHeader (Reader.between [] bytes) = (.ok header, r) :=
    ⟨_, Prod.ext h rfl⟩
  obtain ⟨code, after, hcode, hbytes, -⟩ := hreads.sound hread
  simp only [Grammar.andThen_field, Grammar.map_field] at hcode
  obtain ⟨declared, -, _, ⟨kind, -, _, ⟨tag, -, rfl, rfl⟩, rfl⟩, rfl⟩ := hcode
  rw [hbytes, byteCode_eq]
  have hdeclared : (Reader.wordCode declared).length = 4 := LittleEndian.length_encode _ _
  have htag : (Reader.halfCode tag).length = 2 := LittleEndian.length_encode _ _
  refine ⟨?_, ?_, ?_⟩
  · simp only [List.length_append, List.length_singleton, hdeclared, htag]
    omega
  · simp [hdeclared]
  · rw [List.append_assoc, List.drop_append, hdeclared, List.drop_of_length_le (by omega)]
    show ((Reader.halfCode tag) ++ after).take 2 = _
    rw [List.take_left' htag]
    rfl

/-! ## Submission -/

theorem parse_six {request : Request} {body : List UInt8} (h : Request.parse 6 body = .ok request) :
    request = .unsupported := by
  have hsix : Request.parse 6 body = .ok .unsupported := rfl
  rw [hsix] at h
  cases h
  rfl

theorem messageLimit_le {a : Activation} (hsized : a.session.Sized) (kind : UInt8) :
    messageLimit a kind ≤ maxMessageSize := by
  unfold messageLimit
  split
  · exact Nat.le_refl _
  · exact hsized.2

theorem synced_sized {a : Activation} (h : a.session.Sized) : (synced a).session.Sized := by
  unfold Sized
  rw [synced_msize]
  exact h

/-- The end of a submission, after the header. -/
theorem submitted_ended {b : Activation} (hw : WellFormed b.fs) (hsized : b.session.Sized)
    (header : Header) {bytes : List UInt8} (hbytes : 7 ≤ bytes.length) {capacity : Nat}
    (hcap : capacity ≤ maxMessageSize) {x : SessionOp ProtocolError (List UInt8)}
    (hx : x = (if header.declared ≠ bytes.length ∨ messageLimit b header.kind < header.declared then
      Op.lift (refuse header EPROTO capacity)
    else do
      let body ← Op.lift (if 7 ≤ bytes.length then .ok (bytes.drop 7) else .panic)
      match Request.parse header.kind body with
      | .err errno => Op.lift (refuse header errno capacity)
      | .panic => Op.abort
      | .ok request =>
        if (header.tag = NOTAG ∧ header.kind ≠ 100) ∨
            (!b.session.negotiated ∧ header.kind ≠ 100 ∧ header.kind ≠ 108) then
          Op.lift (refuse header EPROTO capacity)
        else if capacity < request.minimumReply then
          Op.lift (error header.tag ENOSPC capacity)
        else do
          let reply ← Op.lift ((Writer.new (header.kind + 1) header.tag capacity).mapErr
            fun _ => .replyTooSmall)
          match request with
          | .flush => Op.lift reply.finish
          | request => run request header capacity reply)) :
    Ended b header.kind header.tag capacity (x b).1 (x b).2 := by
  rw [hx]
  by_cases hdeclared : header.declared ≠ bytes.length ∨ messageLimit b header.kind < header.declared
  · rw [if_pos hdeclared]
    exact .refuse (refuse_refusal _ _ hcap)
  rw [if_neg hdeclared, Op.bind_ok (Op.lift_ok (if_pos hbytes) b)]
  cases hparse : Request.parse header.kind (bytes.drop 7) with
  | err e => exact .refuse (refuse_refusal _ _ hcap)
  | panic => exact absurd hparse (Request.parse_ne_panic _ _)
  | ok request =>
    have hknown : header.kind = 6 → request = .unsupported := by
      intro hkind
      rw [hkind] at hparse
      exact parse_six hparse
    dsimp only
    by_cases hearly : (header.tag = NOTAG ∧ header.kind ≠ 100) ∨
        (!b.session.negotiated ∧ header.kind ≠ 100 ∧ header.kind ≠ 108)
    · rw [if_pos hearly]
      exact .refuse (refuse_refusal _ _ hcap)
    rw [if_neg hearly]
    by_cases hfull : capacity < request.minimumReply
    · rw [if_pos hfull]
      exact .refuse (error_refusal _ _ hcap)
    rw [if_neg hfull]
    have hroom := Nat.le_of_not_lt hfull
    obtain ⟨reply, hreply, hcapacity, hheader⟩ : ∃ w,
        Writer.new (header.kind + 1) header.tag capacity = .ok w ∧ w.capacity = capacity ∧
          w.bytes = Writer.headerBytes (header.kind + 1) header.tag :=
      Writer.new_eq (hcap.trans (by decide)) ((Request.minimumReply_pos request).trans hroom)
    rw [hreply, Outcome.mapErr_ok, Op.bind_ok (Op.lift_ok rfl b)]
    have hrun := run_ended hw hsized (Request.parse_sized hparse) hheader
      (hcapacity.symm ▸ hroom) (hcapacity.symm ▸ hcap) hknown
    rw [hcapacity] at hrun
    cases request with
    | flush =>
      obtain ⟨answer, hfinish, hframed, -, hle⟩ := finish_framed (ε := ProtocolError) hheader
        (.refl reply) (hcapacity.symm ▸ hcap)
      have hkind : header.kind ≠ 6 := fun hkind => by cases hknown hkind
      dsimp only
      rw [hfinish]
      exact .served (.refl b) hkind hframed (hcapacity ▸ hle)
    | _ => exact hrun

/-- A message in a session of the namespace: one without a header is malformed, and every
other one ends as its type and tag say. -/
theorem submit_ended {a : Activation} (hw : WellFormed a.fs) (hsized : a.session.Sized)
    (h : checkIdentity a = .ok ()) (bytes : List UInt8) (capacity : Nat) :
    submit bytes capacity a = (.err .malformed, synced a) ∨
      ∃ kind tag, bytes[4]? = some kind ∧
        (bytes.drop 5).take 2 = LittleEndian.encode 2 tag.toNat ∧
        Ended (synced a) kind tag (min capacity (messageLimit (synced a) kind))
          (submit bytes capacity a).1 (submit bytes capacity a).2 := by
  have hsync := syncGeneration_eq h
  unfold submit
  rw [Op.bind_ok hsync]
  cases hread : (readHeader (Reader.new bytes)).1 with
  | panic => exact absurd hread (readHeader_ne_panic bytes)
  | err e => exact .inl (Op.bind_err rfl)
  | ok header =>
    obtain ⟨hlength, hkind, htag⟩ := readHeader_ok hread
    refine .inr ⟨header.kind, header.tag, hkind, htag, ?_⟩
    rw [Outcome.mapErr_ok, Op.bind_ok (Op.lift_ok rfl (synced a)), Op.bind_ok (Op.get_apply _)]
    exact submitted_ended (synced_fs a ▸ hw) (synced_sized hsized) header hlength
      ((Nat.min_le_right _ _).trans (messageLimit_le (synced_sized hsized) _)) rfl

end Riscbox

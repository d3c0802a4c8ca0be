import Riscbox.Protocol.Answers

/-!
# Requests that change the namespace

Opening, creating, reading, writing, locking and the removals.  Their replies have a fixed
length, and the room for it is checked before the request runs.
-/

namespace Riscbox

open NinePSession
open Filesystem (WellFormed Call)

/-- The bare header of a reply, with room for `size` bytes in all. -/
structure Roomy (reply : Writer) (size : Nat) : Prop where
  header : reply.bytes.length = 7
  room : size ≤ reply.capacity
  capacity : reply.capacity ≤ maxMessageSize

theorem Roomy.usize {reply : Writer} {size : Nat} (h : Roomy reply size) :
    reply.capacity ≤ usizeMax := h.capacity.trans (by decide)

theorem unsaturated_lt {fs : Filesystem} (h : ¬Saturated fs) (i : InodeId) :
    fs.refsOf i < u32Max := by
  cases hn : fs.inodes[i]? with
  | none =>
    rw [Filesystem.refsOf_of_none hn]
    decide
  | some n =>
    rw [Filesystem.refsOf_of_get hn]
    exact Nat.lt_of_not_le fun hle => h ⟨i, n, hn, hle⟩

/-! ## Replies of fixed length -/

theorem iounit_eq {a : Activation} (h : a.session.Sized) :
    iounit a = .ok (UInt32.ofNat (a.session.msize - 24)) := by
  have hlow := h.1
  have hhigh := h.2
  rw [maxMessageSize] at hhigh
  unfold iounit
  rw [Outcome.sub_eq (by omega), Outcome.ok_bind]
  exact expectU32_eq (by rw [u32Max]; omega)

/-- A qid and an I/O unit, the reply of an open. -/
theorem qid_iounit_fits {reply : Writer} (h : Roomy reply 24) (n : Inode) (unit : UInt32) :
    ∃ w w', reply.qid n = .ok w ∧ w.u32 unit = .ok w' ∧ reply.Grows w' := by
  have hheader := h.header
  have hroom := h.room
  obtain ⟨w, hw, hext⟩ := Writer.qid_fits n h.usize (by omega)
  have hlength := hext.length
  rw [Writer.length_qidBytes] at hlength
  obtain ⟨w', hw', hext'⟩ := Writer.append_fits (w := w)
    (b := LittleEndian.encode 4 unit.toNat) (by rw [hext.capacity]; exact h.usize)
    (by rw [LittleEndian.length_encode, hext.capacity]; omega)
  exact ⟨w, w', hw, hw', _, hext.trans hext'⟩

theorem qid_reply_fits {reply : Writer} (h : Roomy reply 20) (n : Inode) :
    ∃ w, reply.qid n = .ok w ∧ reply.Grows w := by
  have hheader := h.header
  have hroom := h.room
  obtain ⟨w, hw, hext⟩ := Writer.qid_fits n h.usize (by omega)
  exact ⟨w, hw, _, hext⟩

theorem u8_reply_fits {reply : Writer} (h : Roomy reply 8) (value : UInt8) :
    ∃ w, reply.u8 value = .ok w ∧ reply.Grows w := by
  have hheader := h.header
  have hroom := h.room
  obtain ⟨w, hw, hext⟩ := Writer.append_fits (w := reply) (b := [value]) h.usize
    (by rw [List.length_singleton]; omega)
  exact ⟨w, hw, _, hext⟩

theorem u32_reply_fits {reply : Writer} (h : Roomy reply 11) (value : UInt32) :
    ∃ w, reply.u32 value = .ok w ∧ reply.Grows w := by
  have hheader := h.header
  have hroom := h.room
  obtain ⟨w, hw, hext⟩ := Writer.append_fits (w := reply)
    (b := LittleEndian.encode 4 value.toNat) h.usize
    (by rw [LittleEndian.length_encode]; omega)
  exact ⟨w, hw, _, hext⟩

/-- A length word and the bytes it announces. -/
theorem data_reply_fits {reply : Writer} (h : Roomy reply 11) {bytes : List UInt8}
    (hbytes : bytes.length ≤ reply.capacity - 11) (length : UInt32) :
    ∃ w w', reply.u32 length = .ok w ∧ w.append bytes = .ok w' ∧ reply.Grows w' := by
  have hheader := h.header
  have hroom := h.room
  obtain ⟨w, hw, hext⟩ := Writer.append_fits (w := reply)
    (b := LittleEndian.encode 4 length.toNat) h.usize
    (by rw [LittleEndian.length_encode]; omega)
  have hlength := hext.length
  rw [LittleEndian.length_encode] at hlength
  obtain ⟨w', hw', hext'⟩ := Writer.append_fits (w := w) (b := bytes)
    (by rw [hext.capacity]; exact h.usize) (by rw [hext.capacity]; omega)
  exact ⟨w, w', hw, hw', _, hext.trans hext'⟩

/-! ## Opening -/

theorem checkOpen_ne_panic (flags : OpenFlags) (kind : InodeKind) :
    checkOpen flags kind ≠ .panic := by
  unfold checkOpen
  split
  · split_ifs <;> simp
  · simp
  · split_ifs <;> simp

/-- Truncation leaves the inode stored. -/
theorem truncateFor_ends {a : Activation} (hw : WellFormed a.fs) {id : InodeId}
    (hstored : ∃ n, a.fs.inodes[id]? = some n) (flags : OpenFlags) :
    (truncateFor flags id).Ends a fun _ t =>
      (∃ n, t.fs.inodes[id]? = some n) ∧ t.session = a.session ∧ Served a t := by
  unfold truncateFor
  by_cases htruncate : flags.truncate = true
  · rw [if_pos htruncate]
    refine (calling_ends hw (c := .updateAttributes id truncated) rfl rfl (.inl rfl)
      (Filesystem.updateAttributes_ends hw id truncated)).mono ?_
    rintro _ t ⟨⟨-, hn⟩, hsession, hserved⟩
    exact ⟨hn, hsession, hserved⟩
  · rw [if_neg htruncate]
    exact Op.ends_pure ⟨hstored, rfl, .refl a⟩

/-- The open flags of a fid are set; its inode stays. -/
theorem opened_served {a : Activation} {number : UInt32} {f : Fid}
    (hf : a.session.fids[number]? = some f) (flags : OpenFlags) :
    Served a { a with
      session := a.session.withFids
        (a.session.fids.insert number { f with opened := some flags }) } where
  reached := .refl _
  device := .withFids _ _
  counted := by
    intro _
    refine ⟨fun i => ?_, fun h => h.insert (h.vacant hf) _, fun l hl => .inr ⟨l, hl, rfl⟩⟩
    have hheld := held_insert_of_some { f with opened := some flags } hf i
    show a.fs.refsOf i + a.session.held i = a.fs.refsOf i + (a.session.withFids _).held i
    have hinode : ({ f with opened := some flags } : Fid).inode = f.inode := rfl
    rw [hinode] at hheld
    omega

theorem lopen_answers {a : Activation} (hw : WellFormed a.fs) (hsized : a.session.Sized)
    (number raw : UInt32) {reply : Writer} (hroom : Roomy reply 24) :
    Answers a reply (lopen number raw reply) := by
  unfold lopen
  refine Op.settles_reading (fid_ne_panic number a) fun f hf => ?_
  have hf := fid_eq_ok hf
  by_cases hopen : f.opened.isSome = true
  · rw [if_pos hopen]
    exact answers_fail _
  rw [if_neg hopen]
  refine Op.settles_lift (parse_ne_panic raw) fun flags _ => ?_
  refine Op.settles_reading (inode_ne_panic f.inode a) fun n hn => ?_
  refine Op.settles_lift (checkOpen_ne_panic flags n.kind) fun _ _ => ?_
  refine Op.Settles.bind (truncateFor_ends hw ⟨n, inode_eq_ok hn⟩ flags).settles ?_
  rintro _ t ⟨⟨m, hm⟩, hsession, hserved⟩
  left
  obtain ⟨w, w', hqid, hunit, hgrows⟩ :=
    qid_iounit_fits hroom m (UInt32.ofNat (t.session.msize - 24))
  have hft : t.session.fids[number]? = some f := by rw [hsession, hf]
  refine Op.yields_step (Op.reading_ok (inode_of_get hm)) ?_
  refine Op.yields_step (Op.lift_ok hqid t) ?_
  refine Op.yields_step (Op.reading_ok (iounit_eq (hserved.device.sized hsized))) ?_
  refine Op.yields_step (Op.lift_ok hunit t) ?_
  refine Op.yields_step (Op.get_apply t) ?_
  refine Op.yields_step (Op.lift_ok (by rw [hft, Outcome.expect_some]) t) ?_
  refine Op.yields_step (Op.modify_apply _ t) (Op.yields_pure ⟨hgrows, ?_⟩)
  exact hserved.trans (opened_served hft flags)

/-! ## Creating -/

theorem checkExisting_ne_panic (kind : InodeKind) : checkExisting kind ≠ .panic := by
  cases kind <;> simp [checkExisting]

/-- The inode that a create opens is stored, whether it is new or not. -/
theorem createdInode_ends {a : Activation} (hw : WellFormed a.fs) (f : Fid)
    (flags : OpenFlags) (file : Creation) :
    (createdInode f flags file).Ends a fun id t =>
      (∃ n, t.fs.inodes[id]? = some n) ∧ t.session = a.session ∧ Served a t := by
  unfold createdInode
  refine Op.ends_get ?_
  cases hchild : a.fs.child f.inode file.name with
  | panic => exact absurd hchild (child_ne_panic _ _ _)
  | ok id =>
    dsimp only
    by_cases hexclusive : file.flags &&& 0x80 ≠ 0
    · rw [if_pos hexclusive]
      exact Op.ends_fail _
    rw [if_neg hexclusive]
    refine Op.ends_reading (inode_ne_panic id a) fun n hn => ?_
    refine Op.ends_lift (checkExisting_ne_panic n.kind) fun _ _ => ?_
    exact (truncateFor_ends hw ⟨n, inode_eq_ok hn⟩ flags).bind fun _ t ht => Op.yields_pure ht
  | err e =>
    have hcreate : (calling (Filesystem.createFileAt f.inode file.name file.mode f.uid
        file.gid)).Ends a fun id t =>
          (∃ n, t.fs.inodes[id]? = some n) ∧ t.session = a.session ∧ Served a t := by
      refine (calling_ends hw
        (c := .createFileAt f.inode file.name file.mode f.uid file.gid) rfl rfl (.inl rfl)
        (Filesystem.createFileAt_ends hw)).mono ?_
      rintro id t ⟨⟨rfl, s, hs, he⟩, hsession, hserved⟩
      obtain ⟨n, hn, -⟩ := hs.stored he
      exact ⟨⟨n, hn⟩, hsession, hserved⟩
    cases e with
    | notFound => exact hcreate
    | _ => exact Op.ends_fail _

/-- An inode that a counted fid names is stored. -/
theorem stored_of_held {a : Activation} (ha : Held a) {number : UInt32} {f : Fid}
    (hf : a.session.fids[number]? = some f) : ∃ n, a.fs.inodes[f.inode]? = some n := by
  have hone := held_pos hf
  have hle := ha f.inode
  obtain ⟨n, hn, -⟩ := Filesystem.get_of_refsOf_pos (show 0 < a.fs.refsOf f.inode by omega)
  exact ⟨n, hn⟩

theorem create_answers {a : Activation} (hw : WellFormed a.fs) (hsized : a.session.Sized)
    (number : UInt32) (file : Creation) {reply : Writer} (hroom : Roomy reply 24) :
    Answers a reply (create number file reply) := by
  unfold create
  refine Op.settles_reading (directory_ne_panic number a) fun f hf => ?_
  obtain ⟨hf, -⟩ := directory_eq_ok hf
  by_cases hopen : f.opened.isSome = true
  · rw [if_pos hopen]
    exact answers_fail _
  rw [if_neg hopen]
  refine Op.settles_lift (parse_ne_panic file.flags) fun flags _ => ?_
  by_cases hdirectory : flags.directory = true
  · rw [if_pos hdirectory]
    exact answers_fail _
  rw [if_neg hdirectory]
  refine Op.Settles.bind (createdInode_ends hw f flags file).settles ?_
  rintro id t ⟨⟨n, hn⟩, hsession, hserved⟩
  have hwt := hserved.reached.wellFormed hw
  have hplace : t.session.FidsBounded → t.session.Vacant number :=
    fun h => h.vacant (by rw [hsession, hf])
  -- with counted fids and no count at its limit, nothing can fail from here on
  have htail : ∀ {u : Activation}, (∃ m, u.fs.inodes[id]? = some m) → Served a u →
      (do
        let created ← Op.reading (inode id)
        let reply ← Op.lift (reply.qid created)
        let unit ← Op.reading iounit
        Op.lift (reply.u32 unit) : SessionOp UInt32 Writer).Yields u (Answered a reply) := by
    rintro u ⟨m, hm⟩ hu
    obtain ⟨w, w', hqid, hunit, hgrows⟩ :=
      qid_iounit_fits hroom m (UInt32.ofNat (u.session.msize - 24))
    refine Op.yields_step (Op.reading_ok (inode_of_get hm)) ?_
    refine Op.yields_step (Op.lift_ok hqid u) ?_
    refine Op.yields_step (Op.reading_ok (iounit_eq (hu.device.sized hsized))) ?_
    exact ⟨w', u, Op.lift_ok hunit u, hgrows, hu⟩
  by_cases hcounted : Held a ∧ n.fidRefs + 1 ≤ u32Max
  · obtain ⟨ha, hle⟩ := hcounted
    have hat := (hserved.counted ha).held ha
    left
    refine (installFid_yields hwt hat hn hle hplace).bind ?_
    rintro _ u ⟨hu, hsessionu⟩
    refine htail ?_ (hserved.trans hu)
    have hfid : u.session.fids[number]? =
        some { inode := id, uid := f.uid, opened := some flags } := by
      rw [hsessionu]
      show (t.session.fids.insert number _)[number]? = _
      rw [BTreeMap.get_insert, if_pos rfl]
    exact stored_of_held ((hu.counted hat).held hat) hfid
  · have hsaturated : Held a → Saturated a.fs := by
      intro ha
      by_contra hnot
      have hlt := unsaturated_lt hnot id
      have hrefs := (hserved.counted ha).refs id
      have hcount := Filesystem.refsOf_of_get hn
      rw [hsession] at hrefs
      exact hcounted ⟨ha, by omega⟩
    have htorn : ∀ {u : Activation}, Served t u → Torn a u :=
      fun hu => ⟨hserved.trans hu, hsaturated⟩
    right
    refine ⟨?_, .inr (htorn (.refl t))⟩
    refine Op.Settles.bind ((installFid_settles hwt hplace).weaken fun u hu => htorn hu.1) ?_
    rintro _ u ⟨hu, -⟩
    right
    refine ⟨?_, .inr (htorn hu)⟩
    cases hm : u.fs.inodes[id]? with
    | some m => exact (htail ⟨m, hm⟩ (hserved.trans hu)).settles
    | none =>
      refine Op.settles_of_err (Op.bind_err (e := ESTALE) ?_)
      rw [Op.reading_apply, inode, hm]
      rfl

/-! ## Reading and writing -/

theorem finishIo_answers {a : Activation} (hw : WellFormed a.fs) (operation : IoOperation)
    {reply : Writer} (hroom : match operation with
      | .read _ _ count _ => Roomy reply 11 ∧ count ≤ reply.capacity - 11
      | .write _ _ data _ => Roomy reply 11 ∧ data.length ≤ u32Max
      | .attributes _ _ => True) : Answers a reply (finishIo operation reply) := by
  cases operation with
  | read id offset count noAtime =>
    obtain ⟨hroom, hcount⟩ := hroom
    refine Op.Settles.bind (calling_ends hw (c := .readInode id offset count (!noAtime)) rfl
      rfl (.inl rfl) (Filesystem.readInode_ends hw id offset count (!noAtime))).settles ?_
    rintro bytes t ⟨⟨n, body, -, -, rfl, -⟩, -, hserved⟩
    left
    have hbytes : ((body.drop offset.toNat).take count).length ≤ reply.capacity - 11 :=
      (List.length_take_le _ _).trans hcount
    obtain ⟨w, w', hlength, hdata, hgrows⟩ := data_reply_fits hroom hbytes
      (UInt32.ofNat ((body.drop offset.toNat).take count).length)
    have hcap := hroom.capacity
    have hsmall : ((body.drop offset.toNat).take count).length ≤ u32Max := by
      rw [maxMessageSize] at hcap
      rw [u32Max]
      omega
    refine Op.yields_step (Op.lift_ok (expectU32_eq hsmall) t) ?_
    refine Op.yields_step (Op.lift_ok hlength t) ?_
    exact ⟨w', t, Op.lift_ok hdata t, hgrows, hserved⟩
  | write id offset data append =>
    obtain ⟨hroom, hdata⟩ := hroom
    refine Op.Settles.bind (calling_ends hw (c := .writeInode id offset data append) rfl
      rfl (.inl rfl) (Filesystem.writeInode_ends hw id offset data append)).settles ?_
    rintro _ t ⟨-, -, hserved⟩
    left
    obtain ⟨w, hlength, hgrows⟩ := u32_reply_fits hroom (UInt32.ofNat data.length)
    refine Op.yields_step (Op.lift_ok (expectU32_eq hdata) t) ?_
    exact ⟨w, t, Op.lift_ok hlength t, hgrows, hserved⟩
  | attributes id update =>
    refine Op.Settles.bind (calling_ends hw (c := .updateAttributes id update) rfl rfl
      (.inl rfl) (Filesystem.updateAttributes_ends hw id update)).settles ?_
    rintro _ t ⟨-, -, hserved⟩
    exact .inl (Op.yields_pure ⟨.refl reply, hserved⟩)

theorem clunk_settles {a : Activation} (hw : WellFormed a.fs) (number : UInt32) :
    (clunk number).Settles a (Torn a) fun _ t => Served a t := by
  unfold clunk
  refine Op.settles_reading (fid_ne_panic number a) fun f hf => ?_
  have hf := fid_eq_ok hf
  refine Op.Settles.bind (onFs_ends _ (Filesystem.releaseFid_ends hw f.inode)).settles ?_
  rintro _ t ⟨fs', ⟨n, hn, hpos, rfl⟩, rfl⟩
  refine .inl ⟨(), _, Op.modify_apply _ _, ?_⟩
  exact
    { reached := released_reached hw hn hpos
      device := .withFids _ _
      counted := by
        intro _
        refine ⟨fun i => ?_, fun h => h.erase hf, released_tags hn hpos _⟩
        have hrefs := Filesystem.released_refsOf hn hpos i
        have hheld := held_erase hf i
        show (a.fs.released f.inode n).refsOf i + a.session.held i =
          a.fs.refsOf i + (a.session.withFids (a.session.fids.erase number)).held i
        omega }

/-! ## Links, names and locks -/

/-- A public call whose answer is not part of the reply. -/
theorem call_settles {a : Activation} (hw : WellFormed a.fs) {α : Type} {x : FsOp α}
    {f : α → Filesystem.Answer} {c : Call} {post : α → Filesystem → Prop}
    (hrun : c.run = f <$> x) (hcounts : c.counts = false) (htag : c.tag = none)
    (h : x.Ends a.fs post) : (calling x).Settles a (Torn a) fun _ t => Served a t :=
  ((calling_ends hw hrun hcounts (.inl htag) h).mono fun _ _ ht => ht.2.2).settles

/-- A new inode, and its qid. -/
theorem created_answers {a : Activation} {reply : Writer} (hroom : Roomy reply 20)
    {x : SessionOp UInt32 InodeId}
    (h : x.Ends a fun id t => (∃ n, t.fs.inodes[id]? = some n) ∧ Served a t) :
    Answers a reply (do
      let id ← x
      let created ← Op.reading (inode id)
      Op.lift (reply.qid created)) := by
  refine Op.Settles.bind h.settles ?_
  rintro id t ⟨⟨n, hn⟩, hserved⟩
  left
  obtain ⟨w, hqid, hgrows⟩ := qid_reply_fits hroom n
  refine Op.yields_step (Op.reading_ok (inode_of_get hn)) ?_
  exact ⟨w, t, Op.lift_ok hqid t, hgrows, hserved⟩

theorem makeSymlink_answers {a : Activation} (hw : WellFormed a.fs) (number : UInt32)
    (name target : String) (gid : UInt32) {reply : Writer} (hroom : Roomy reply 20) :
    Answers a reply (makeSymlink number name target gid reply) := by
  unfold makeSymlink
  refine Op.settles_reading (directory_ne_panic number a) fun d _ => ?_
  refine created_answers hroom ((calling_ends hw
    (c := .symlinkAt d.inode name target d.uid gid) rfl rfl (.inl rfl)
    (Filesystem.symlinkAt_ends hw)).mono ?_)
  rintro id t ⟨⟨rfl, s, hs, he⟩, -, hserved⟩
  obtain ⟨n, hn, -⟩ := hs.stored he
  exact ⟨⟨n, hn⟩, hserved⟩

theorem makeDirectory_answers {a : Activation} (hw : WellFormed a.fs) (number : UInt32)
    (name : String) (mode gid : UInt32) {reply : Writer} (hroom : Roomy reply 20) :
    Answers a reply (makeDirectory number name mode gid reply) := by
  unfold makeDirectory
  refine Op.settles_reading (directory_ne_panic number a) fun d _ => ?_
  refine created_answers hroom ((calling_ends hw
    (c := .mkdirAt d.inode name mode d.uid gid) rfl rfl (.inl rfl)
    (Filesystem.mkdirAt_ends hw)).mono ?_)
  rintro id t ⟨⟨rfl, s, hs, he⟩, -, hserved⟩
  obtain ⟨n, hn, -⟩ := hs.stored he
  exact ⟨⟨n, hn⟩, hserved⟩

theorem link_settles {a : Activation} (hw : WellFormed a.fs) (directoryNumber number : UInt32)
    (name : String) :
    (link directoryNumber number name).Settles a (Torn a) fun _ t => Served a t := by
  unfold link
  refine Op.settles_reading (directory_ne_panic directoryNumber a) fun d _ => ?_
  refine Op.settles_reading (fid_ne_panic number a) fun f _ => ?_
  refine Op.settles_reading (inode_ne_panic f.inode a) fun n _ => ?_
  by_cases hdirectory : n.kind.isDirectory = true
  · rw [if_pos hdirectory]
    exact Op.settles_fail _
  · rw [if_neg hdirectory]
    exact call_settles hw (c := .linkAt d.inode name f.inode) rfl rfl rfl
      (Filesystem.linkAt_ends hw _ _ _)

theorem rename_settles {a : Activation} (hw : WellFormed a.fs) (oldNumber : UInt32)
    (oldName : String) (newNumber : UInt32) (newName : String) :
    (rename oldNumber oldName newNumber newName).Settles a (Torn a) fun _ t => Served a t := by
  unfold rename
  refine Op.settles_reading (directory_ne_panic oldNumber a) fun old _ => ?_
  refine Op.settles_reading (directory_ne_panic newNumber a) fun new _ => ?_
  exact call_settles hw (c := .renameAt old.inode oldName new.inode newName) rfl rfl rfl
    (Filesystem.renameAt_ends hw _ _ _ _)

theorem unlink_settles {a : Activation} (hw : WellFormed a.fs) (number : UInt32)
    (name : String) (flags : UInt32) :
    (unlink number name flags).Settles a (Torn a) fun _ t => Served a t := by
  unfold unlink
  by_cases hflags : flags &&& ~~~0x200 ≠ 0
  · rw [if_pos hflags]
    exact Op.settles_fail _
  rw [if_neg hflags]
  refine Op.settles_reading (directory_ne_panic number a) fun d _ => ?_
  refine Op.settles_get ?_
  refine Op.settles_lift (mapErr_ne_panic (child_ne_panic _ _ _)) fun id _ => ?_
  refine Op.settles_reading (inode_ne_panic id a) fun n _ => ?_
  dsimp only
  split
  · exact Op.settles_fail _
  · exact call_settles hw (c := .removeAt d.inode name) rfl rfl rfl
      (Filesystem.removeAt_ends hw _ _)

theorem lockKind_ne_panic (kind : UInt8) (flags : OpenFlags) (checkAccess : Bool) :
    lockKind kind flags checkAccess ≠ .panic := by
  unfold lockKind
  split_ifs <;> simp

theorem lockRequest_ne_panic (raw : Lock) (checkAccess : Bool) (a : Activation) :
    lockRequest raw checkAccess a ≠ .panic := by
  refine Outcome.bind_ne_panic (opened_ne_panic raw.fid a) fun p _ => ?_
  refine Outcome.bind_ne_panic (inode_ne_panic p.1.inode a) fun n _ => ?_
  split
  · simp
  · exact Outcome.bind_ne_panic (lockKind_ne_panic _ _ _) fun _ _ => by simp

/-- A session tags its locks with itself. -/
theorem lockRequest_session {raw : Lock} {checkAccess : Bool} {a : Activation}
    {requested : ByteRangeLock} (h : lockRequest raw checkAccess a = .ok requested) :
    requested.session = a.session.session := by
  obtain ⟨p, -, h⟩ := Outcome.bind_eq_ok.mp h
  obtain ⟨n, -, h⟩ := Outcome.bind_eq_ok.mp h
  split at h
  · cases h
  · obtain ⟨kind, -, h⟩ := Outcome.bind_eq_ok.mp h
    cases h
    rfl

theorem lock_answers {a : Activation} (hw : WellFormed a.fs) (raw : Lock) {reply : Writer}
    (hroom : Roomy reply 8) : Answers a reply (lock raw reply) := by
  unfold lock
  by_cases hflags : raw.flags &&& ~~~1 ≠ 0
  · rw [if_pos hflags]
    exact answers_fail _
  rw [if_neg hflags]
  refine Op.settles_reading (lockRequest_ne_panic raw true a) fun requested hrequested => ?_
  have hacquire : (acquire raw requested).Ends a fun _ t => Served a t := by
    unfold acquire
    by_cases hunlock : raw.kind = 2
    · rw [if_pos hunlock]
      refine Op.ends_get ?_
      refine (calling_ends hw (c := .unlock requested.inode a.session.session
        requested.process requested.client requested.start requested.length) rfl rfl (.inl rfl)
        (Filesystem.unlock_ends _ _ _ _ _ _ _)).bind fun _ t ht => ?_
      exact Op.yields_pure ht.2.2
    · rw [if_neg hunlock]
      exact (calling_ends hw (c := .tryLock requested) rfl rfl
        (.inr (congrArg some (lockRequest_session hrequested)))
        (Filesystem.tryLock_ends _ _)).mono fun _ t ht => ht.2.2
  refine Op.Settles.bind hacquire.settles fun acquired t hserved => .inl ?_
  obtain ⟨w, hreply, hgrows⟩ := u8_reply_fits hroom (if acquired then 0 else 1)
  exact ⟨w, t, Op.lift_ok hreply t, hgrows, hserved⟩

end Riscbox

import Riscbox.Filesystem.Clear

/-!
# Contents, attributes and fids

Writes inside one inode, the counting of fids, and the reset of the whole namespace.
-/

namespace Riscbox.Filesystem

/-! ## Attributes -/

/-- An attribute update touches neither the place of an inode nor its contents. -/
theorem metadata_apply_place (metadata : Metadata) (n : Inode) :
    SamePlace n (Metadata.apply metadata n) ∧ (Metadata.apply metadata n).kind = n.kind ∧
      (Metadata.apply metadata n).fidRefs = n.fidRefs := by
  obtain ⟨_ | _, _ | _, _ | _, _ | _, _ | _, _ | _⟩ := metadata <;>
    exact ⟨⟨rfl, rfl, rfl, rfl⟩, rfl, rfl⟩

theorem attributeUpdate_apply_place (update : AttributeUpdate) (now : UInt64) (n : Inode) :
    SamePlace n (AttributeUpdate.apply update now n) ∧
      (AttributeUpdate.apply update now n).kind = n.kind ∧
      (AttributeUpdate.apply update now n).fidRefs = n.fidRefs := by
  obtain ⟨_ | _, _ | _, _ | _, size, _ | _, _ | _, ctime⟩ := update <;>
    exact ⟨⟨rfl, rfl, rfl, rfl⟩, rfl, rfl⟩

theorem setMetadata_ends {fs : Filesystem} (h : WellFormed fs) (id : InodeId)
    (update : Metadata) :
    (setMetadata id update).Ends fs fun _ fs' =>
      (update = Metadata.default ∧ fs' = fs) ∨
        (update ≠ Metadata.default ∧ Reports .metadata (some id) fs fs') := by
  unfold setMetadata
  refine Op.ends_get ?_
  refine Op.ends_lift (inodeOf_ne_panic fs id) fun n hn => ?_
  have hn := get_of_inodeOf hn
  by_cases hdefault : update = Metadata.default
  · rw [if_pos hdefault]
    exact Op.ends_pure (.inl ⟨hdefault, rfl⟩)
  rw [if_neg hdefault]
  obtain ⟨hplace, hkind, hrefs⟩ := metadata_apply_place update (n.changed fs.now)
  have c : Adjusts fs id n (Metadata.apply update (n.changed fs.now)) :=
    { stored := hn, kind := hkind, fidRefs := hrefs
      place := ⟨hplace.id, hplace.directory, hplace.parent, hplace.linkCount⟩ }
  have happly : applyMetadata id update (fs.setInode id (n.changed fs.now)) =
      (.ok (), fs.setInode id (Metadata.apply update (n.changed fs.now))) := by
    unfold applyMetadata
    rw [Op.bind_ok (Op.get_apply _), Op.bind_ok (Op.lift_ok (inodeOf_of_get (by
      rw [get_setInode, if_pos rfl])) _), Op.set_apply, setInode_setInode]
  refine Op.Yields.ends ?_
  refine Op.yields_step (Op.set_apply _ _) ?_
  refine Op.yields_step happly ?_
  refine (emitInode_yields ((Write.adjust c).wellFormed h).linked .metadata id).mono
    fun _ fs' he => ?_
  exact .inr ⟨hdefault, _, .adjust c, rfl, rfl, rfl, he⟩

/-! ## Reading -/

theorem readInode_ends {fs : Filesystem} (h : WellFormed fs) (id : InodeId) (offset : UInt64)
    (count : Nat) (updateAtime : Bool) :
    (readInode id offset count updateAtime).Ends fs fun bytes fs' => ∃ n body,
      fs.inodes[id]? = some n ∧ n.kind = .file body ∧
      bytes = (body.drop offset.toNat).take count ∧
      (fs' = fs ∨ fs' = fs.setInode id { n with atime := fs.now, atimeNanoseconds := 0 }) := by
  unfold readInode
  refine Op.ends_get ?_
  refine Op.ends_lift (inodeOf_ne_panic fs id) fun n hn => ?_
  have hn := get_of_inodeOf hn
  cases hkind : n.kind with
  | directory entries nextCookie => exact Op.ends_fail _
  | symlink target => exact Op.ends_fail _
  | file body =>
    dsimp only
    by_cases hempty : count = 0 ∨ body.length ≤ offset.toNat
    · rw [if_pos hempty]
      refine Op.ends_pure ⟨n, body, hn, hkind, ?_, .inl rfl⟩
      rcases hempty with h0 | hpast
      · rw [h0, List.take_zero]
      · rw [List.drop_eq_nil_of_le hpast, List.take_nil]
    rw [if_neg hempty]
    rw [not_or, Nat.not_le] at hempty
    have hbody : body.length ≤ fs.limits.maxFileBytes := by
      have hle := h.account.body_le hn
      rw [hkind] at hle
      exact hle
    have husize : offset.toNat ≤ usizeMax := by
      have := fs.limits.maxFileBytes_le
      omega
    have hslice : ∀ s, (do
        let start ← Op.lift (toUsize offset.toNat)
        let left ← Op.checkedSub body.length start
        Op.lift (slice body start (start + min count left)) : FsOp (List UInt8)) s =
        (.ok ((body.drop offset.toNat).take count), s) := by
      intro s
      rw [Op.bind_ok (Op.lift_ok (by rw [toUsize, if_pos husize]) s),
        Op.bind_ok (Op.checkedSub_apply (Nat.le_of_lt hempty.2) s), Op.lift_apply, slice,
        if_pos (by omega), Nat.add_sub_cancel_left]
      rw [← List.length_drop, ← List.take_eq_take_min]
    by_cases hatime : updateAtime = true
    · rw [if_pos hatime]
      exact Op.Yields.ends (Op.yields_step (Op.set_apply _ _)
        ⟨_, _, hslice _, n, body, hn, hkind, rfl, .inr (by rw [hkind])⟩)
    · rw [if_neg hatime]
      exact Op.Yields.ends ⟨_, _, hslice _, n, body, hn, hkind, rfl, .inl rfl⟩

/-! ## Writing -/

theorem length_resize (bytes : List UInt8) (size : Nat) : (resize bytes size).length = size := by
  rw [resize, List.length_append, List.length_take, List.length_replicate]
  omega

theorem copyAt_ok (bytes data : List UInt8) (start : Nat)
    (h : start + data.length ≤ bytes.length) :
    ∃ bytes', copyAt bytes start data = .ok bytes' ∧ bytes'.length = bytes.length := by
  rw [copyAt, if_pos h]
  refine ⟨_, rfl, ?_⟩
  rw [List.length_append, List.length_append, List.length_take, List.length_drop]
  omega

theorem fileBody_ne_panic (fs : Filesystem) (id : InodeId) : fs.fileBody id ≠ .panic := by
  refine Outcome.bind_ne_panic (inodeOf_ne_panic fs id) fun n _ => ?_
  cases n.kind <;> simp

theorem fileBody_eq_ok {fs : Filesystem} {id : InodeId} {body : List UInt8}
    (h : fs.fileBody id = .ok body) : ∃ n, fs.inodes[id]? = some n ∧ n.kind = .file body := by
  obtain ⟨n, hn, h⟩ := Outcome.bind_eq_ok.mp h
  refine ⟨n, get_of_inodeOf hn, ?_⟩
  cases hkind : n.kind with
  | directory entries nextCookie => rw [hkind] at h; cases h
  | file body =>
    rw [hkind] at h
    cases h
    rfl
  | symlink target => rw [hkind] at h; cases h

theorem toUsize_ne_panic (value : Nat) : toUsize value ≠ .panic := by
  unfold toUsize
  split <;> simp

theorem toUsize_eq_ok {value size : Nat} (h : toUsize value = .ok size) :
    size = value ∧ value ≤ usizeMax := by
  unfold toUsize at h
  split at h
  · cases h
    exact ⟨rfl, ‹_›⟩
  · cases h

theorem validateResize_ne_panic {fs : Filesystem} (h : WellFormed fs) (id : InodeId)
    (size : Nat) : fs.validateResize id size ≠ .panic := by
  refine Outcome.bind_ne_panic (fileBody_ne_panic fs id) fun body hbody => ?_
  obtain ⟨n, hn, hkind⟩ := fileBody_eq_ok hbody
  have hle : body.length ≤ fs.logicalBytes := by
    have hle := h.account.body_le_logicalBytes hn
    rw [hkind] at hle
    exact hle
  refine Outcome.bind_ne_panic (toUsize_ne_panic size) fun size _ => ?_
  split
  · simp
  rw [if_neg (Nat.not_lt.mpr hle)]
  refine Outcome.bind_ne_panic (Outcome.okOr_ne_panic _ _) fun total _ => ?_
  split <;> simp

/-- A size that passed the quotas. -/
theorem validateResize_eq_ok {fs : Filesystem} {id : InodeId} {size size' : Nat}
    (h : fs.validateResize id size = .ok size') :
    ∃ n body, fs.inodes[id]? = some n ∧ n.kind = .file body ∧ size' = size ∧ size ≤ usizeMax ∧
      size ≤ fs.limits.maxFileBytes ∧
      fs.logicalBytes - body.length + size ≤ fs.limits.maxTreeBytes := by
  obtain ⟨body, hbody, h₁⟩ := Outcome.bind_eq_ok.mp h
  obtain ⟨n, hn, hkind⟩ := fileBody_eq_ok hbody
  obtain ⟨_, husize, h₂⟩ := Outcome.bind_eq_ok.mp h₁
  obtain ⟨rfl, hmax⟩ := toUsize_eq_ok husize
  split at h₂
  · cases h₂
  next hfile =>
    split at h₂
    · cases h₂
    obtain ⟨total, htotal, h₃⟩ := Outcome.bind_eq_ok.mp h₂
    obtain ⟨_, rfl⟩ := checkedAdd_eq_some.mp (Outcome.okOr_eq_ok.mp htotal)
    split at h₃
    · cases h₃
    next htree =>
      cases h₃
      exact ⟨n, body, hn, hkind, rfl, hmax, Nat.le_of_not_lt hfile, Nat.le_of_not_lt htree⟩

theorem validateWrite_ne_panic {fs : Filesystem} (h : WellFormed fs) (id : InodeId)
    (offset : UInt64) (count : Nat) (append : Bool) :
    fs.validateWrite id offset count append ≠ .panic := by
  refine Outcome.bind_ne_panic (fileBody_ne_panic fs id) fun body _ => ?_
  dsimp only
  split
  · simp
  · refine Outcome.bind_ne_panic (Outcome.okOr_ne_panic _ _) fun finish _ => ?_
    exact validateResize_ne_panic h id _

/-- Where a write starts. -/
def writeStart (body : List UInt8) (offset : UInt64) (append : Bool) : Nat :=
  if append then body.length else offset.toNat

theorem validateWrite_eq_ok {fs : Filesystem} {id : InodeId} {offset : UInt64} {count size : Nat}
    {append : Bool} (h : fs.validateWrite id offset count append = .ok size) (hcount : count ≠ 0) :
    ∃ n body, fs.inodes[id]? = some n ∧ n.kind = .file body ∧
      size = max (writeStart body offset append + count) body.length ∧ size ≤ usizeMax ∧
      size ≤ fs.limits.maxFileBytes ∧
      fs.logicalBytes - body.length + size ≤ fs.limits.maxTreeBytes := by
  obtain ⟨body, hbody, h⟩ := Outcome.bind_eq_ok.mp h
  dsimp only at h
  rw [if_neg hcount] at h
  obtain ⟨finish, hfinish, h⟩ := Outcome.bind_eq_ok.mp h
  obtain ⟨_, rfl⟩ := checkedAdd_eq_some.mp (Outcome.okOr_eq_ok.mp hfinish)
  obtain ⟨n, body', hn, hkind, rfl, hrest⟩ := validateResize_eq_ok h
  obtain ⟨n', hn', hkind'⟩ := fileBody_eq_ok hbody
  rw [hn] at hn'
  cases hn'
  rw [hkind] at hkind'
  cases hkind'
  exact ⟨n, body, hn, hkind, rfl, hrest⟩

/-- A write, then one record for it with the first path of the inode. -/
def ReportsInode (kind : ChangeKind) (id : InodeId) (fs fs' : Filesystem) : Prop :=
  ∃ t, Write fs t ∧ t.changes = fs.changes ∧ t.recordChanges = fs.recordChanges ∧
    t.mutationSource = fs.mutationSource ∧ EmitsPath kind (some id) (t.firstPath id) t fs'

theorem ReportsInode.reports {kind : ChangeKind} {id : InodeId} {fs fs' : Filesystem}
    (h : ReportsInode kind id fs fs') : Reports kind (some id) fs fs' := by
  obtain ⟨t, w, hchanges, hrecord, hsource, he⟩ := h
  exact ⟨t, w, hchanges, hrecord, hsource, he.emits⟩

theorem writeInode_records {fs : Filesystem} (h : WellFormed fs) (id : InodeId) (offset : UInt64)
    (data : List UInt8) (append : Bool) :
    (writeInode id offset data append).Ends fs fun _ fs' =>
      (data = [] ∧ fs' = fs) ∨ (data ≠ [] ∧ ReportsInode .write id fs fs') := by
  unfold writeInode
  refine Op.ends_get ?_
  refine Op.ends_lift (validateWrite_ne_panic h id offset data.length append) fun size hsize => ?_
  by_cases hdata : data = []
  · rw [if_pos hdata]
    exact Op.ends_pure (.inl ⟨hdata, rfl⟩)
  rw [if_neg hdata]
  obtain ⟨n, body, hn, hkind, hsizeEq, husize, hfile, htree⟩ :=
    validateWrite_eq_ok hsize (by simpa using hdata)
  have hstart : writeStart body offset append + data.length ≤ size := by omega
  refine Op.Yields.ends ?_
  refine Op.yields_step (Op.lift_ok (inodeOf_of_get hn) _) ?_
  rw [hkind]
  have hbody : n.kind.bodyLength = body.length := by rw [hkind]; rfl
  obtain ⟨body', hcopy, hlength⟩ := copyAt_ok (resize body size) data
    (writeStart body offset append) (by rw [length_resize]; exact hstart)
  rw [length_resize] at hlength
  have hle : body.length ≤ fs.logicalBytes := by
    rw [← hbody]
    exact h.account.body_le_logicalBytes hn
  have c : Rewrites fs id n ({ n with kind := .file body' }.touch fs.now) :=
    { stored := hn, file := by rw [hkind]; rfl, file' := rfl
      place := ⟨rfl, by rw [hkind]; rfl, rfl, rfl⟩, fidRefs := rfl
      body := by show body'.length ≤ _; rw [hlength]; exact hfile
      bytes := by
        show _ - n.kind.bodyLength + body'.length ≤ _
        rw [hbody, hlength]
        exact htree }
  have hl := ((Write.rewrite c).wellFormed h).linked
  have hfinish : (do
      let bytes ← Op.lift (copyAt (resize body size) (writeStart body offset append) data)
      let remaining ← Op.checkedSub fs.logicalBytes body.length
      Op.set ({ fs with logicalBytes := remaining + size }.setInode id
        ({ n with kind := .file bytes }.touch fs.now))
      emitInode .write id fs.mutationSource : FsOp Unit).Yields fs
      fun _ fs' => (data = [] ∧ fs' = fs) ∨ (data ≠ [] ∧ ReportsInode .write id fs fs') := by
    refine Op.yields_step (Op.lift_ok hcopy _) ?_
    refine Op.yields_step (Op.checkedSub_apply hle _) ?_
    refine Op.yields_step (Op.set_apply _ _) ?_
    have hstate : { fs with logicalBytes := fs.logicalBytes - body.length + size }.setInode id
        ({ n with kind := .file body' }.touch fs.now) =
        rewritten fs id n ({ n with kind := .file body' }.touch fs.now) := by
      show _ = { fs with
        inodes := _
        logicalBytes := fs.logicalBytes - n.kind.bodyLength + body'.length }
      rw [hbody, hlength]
      rfl
    refine Op.Yields.of_eq hstate ?_
    exact (emitInode_yields_path hl .write id).mono fun _ fs' he =>
      .inr ⟨hdata, _, .rewrite c, rfl, rfl, rfl, he⟩
  cases append with
  | true => exact hfinish
  | false =>
    refine Op.yields_step (Op.lift_ok ?_ _) hfinish
    rw [toUsize, if_pos]
    · rfl
    · have : offset.toNat + data.length ≤ size := hstart
      omega

theorem writeInode_ends {fs : Filesystem} (h : WellFormed fs) (id : InodeId) (offset : UInt64)
    (data : List UInt8) (append : Bool) :
    (writeInode id offset data append).Ends fs fun _ fs' =>
      (data = [] ∧ fs' = fs) ∨ (data ≠ [] ∧ Reports .write (some id) fs fs') := by
  refine (writeInode_records h id offset data append).mono ?_
  rintro _ fs' (hempty | ⟨hdata, hr⟩)
  · exact .inl hempty
  · exact .inr ⟨hdata, hr.reports⟩

theorem get_self {fs : Filesystem} {id : InodeId} {n : Inode} :
    (fs.setInode id n).inodes[id]? = some n := by
  rw [get_setInode, if_pos rfl]

theorem updateAttributes_records {fs : Filesystem} (h : WellFormed fs) (id : InodeId)
    (update : AttributeUpdate) :
    (updateAttributes id update).Ends fs fun _ fs' =>
      ((update = AttributeUpdate.default ∧ fs' = fs) ∨
        (update ≠ AttributeUpdate.default ∧
          ReportsInode (if update.size.isSome then .write else .metadata) id fs fs')) ∧
      ∃ n, fs'.inodes[id]? = some n := by
  unfold updateAttributes
  refine Op.ends_get ?_
  cases hsize : update.size with
  | none =>
    refine Op.ends_step (Op.pure_apply _ _) ?_
    refine Op.ends_lift (inodeOf_ne_panic fs id) fun n hn => ?_
    have hn := get_of_inodeOf hn
    by_cases hdefault : update = AttributeUpdate.default
    · rw [if_pos hdefault]
      exact Op.ends_pure ⟨.inl ⟨hdefault, rfl⟩, n, hn⟩
    rw [if_neg hdefault]
    obtain ⟨hplace, hkind, hrefs⟩ := attributeUpdate_apply_place update fs.now n
    have c : Adjusts fs id n (AttributeUpdate.apply update fs.now n) :=
      { stored := hn, place := hplace, kind := hkind, fidRefs := hrefs }
    refine Op.Yields.ends ?_
    refine Op.yields_step (Op.set_apply _ _) ?_
    refine (emitInode_yields_path ((Write.adjust c).wellFormed h).linked .metadata id).mono
      fun _ fs' he => ?_
    exact ⟨.inr ⟨hdefault, _, .adjust c, rfl, rfl, rfl, he⟩, _, he.emits.stored get_self⟩
  | some requested =>
    dsimp only
    have hdefault : update ≠ AttributeUpdate.default := by
      rintro rfl
      cases hsize
    cases hvalid : fs.validateResize id requested.toNat with
    | err error => exact Op.ends_of_err rfl
    | panic => exact absurd hvalid (validateResize_ne_panic h id _)
    | ok size =>
      refine Op.ends_step (Op.lift_ok rfl _) ?_
      refine Op.ends_step (Op.pure_apply _ _) ?_
      obtain ⟨n, body, hn, hkind, rfl, -, hfile, htree⟩ := validateResize_eq_ok hvalid
      refine Op.ends_step (Op.lift_ok (inodeOf_of_get hn) _) ?_
      rw [if_neg hdefault]
      dsimp only
      rw [hkind]
      have hbody : n.kind.bodyLength = body.length := by rw [hkind]; rfl
      have hle : body.length ≤ fs.logicalBytes := by
        rw [← hbody]
        exact h.account.body_le_logicalBytes hn
      let resized : Inode := { n with
        kind := .file (resize body requested.toNat), mtime := fs.now, mtimeNanoseconds := 0 }
      obtain ⟨hplace, hkind', hrefs⟩ := attributeUpdate_apply_place update fs.now resized
      have hlength : (AttributeUpdate.apply update fs.now resized).kind.bodyLength =
          requested.toNat := by
        rw [hkind']
        exact length_resize _ _
      have c : Rewrites fs id n (AttributeUpdate.apply update fs.now resized) :=
        { stored := hn, file := by rw [hkind]; rfl, file' := by rw [hkind']; rfl
          place := ⟨hplace.id, by rw [hkind, hkind']; rfl, hplace.parent, hplace.linkCount⟩
          fidRefs := hrefs, body := by rw [hlength]; exact hfile
          bytes := by rw [hbody, hlength]; exact htree }
      have hstate : { fs with
          logicalBytes := fs.logicalBytes - body.length + requested.toNat }.setInode id
            (AttributeUpdate.apply update fs.now resized) =
          rewritten fs id n (AttributeUpdate.apply update fs.now resized) := by
        rw [rewritten, hbody, hlength]
        rfl
      refine Op.Yields.ends ?_
      refine Op.yields_step (Op.checkedSub_apply hle _) ?_
      refine Op.yields_step (Op.set_apply _ _) ?_
      refine Op.Yields.of_eq hstate ?_
      exact (emitInode_yields_path ((Write.rewrite c).wellFormed h).linked .write id).mono
        fun _ fs' he =>
          ⟨.inr ⟨hdefault, _, .rewrite c, rfl, rfl, rfl, he⟩, _, he.emits.stored get_self⟩

theorem updateAttributes_ends {fs : Filesystem} (h : WellFormed fs) (id : InodeId)
    (update : AttributeUpdate) :
    (updateAttributes id update).Ends fs fun _ fs' =>
      ((update = AttributeUpdate.default ∧ fs' = fs) ∨
        (update ≠ AttributeUpdate.default ∧
          Reports (if update.size.isSome then .write else .metadata) (some id) fs fs')) ∧
      ∃ n, fs'.inodes[id]? = some n := by
  refine (updateAttributes_records h id update).mono ?_
  rintro _ fs' ⟨hsame | ⟨hdefault, hr⟩, hstored⟩
  · exact ⟨.inl hsame, hstored⟩
  · exact ⟨.inr ⟨hdefault, hr.reports⟩, hstored⟩

/-! ## Fids -/

/-- One more fid. -/
def retained (fs : Filesystem) (id : InodeId) (n : Inode) : Filesystem :=
  fs.setInode id { n with fidRefs := n.fidRefs + 1 }

/-- One fid less; an inode without links goes with its last fid. -/
def released (fs : Filesystem) (id : InodeId) (n : Inode) : Filesystem :=
  let n' := { n with fidRefs := n.fidRefs - 1 }
  if n'.fidRefs = 0 ∧ n'.linkCount = 0 then freed (fs.setInode id n') id n'
  else fs.setInode id n'

theorem retainFid_ends (fs : Filesystem) (id : InodeId) :
    (retainFid id).Ends fs fun _ fs' => ∃ n, fs.inodes[id]? = some n ∧
      n.fidRefs + 1 ≤ u32Max ∧ fs' = retained fs id n := by
  unfold retainFid
  refine Op.ends_get ?_
  refine Op.ends_lift (inodeOf_ne_panic fs id) fun n hn => ?_
  refine Op.ends_lift (Outcome.okOr_ne_panic _ _) fun refs hrefs => ?_
  obtain ⟨hle, rfl⟩ := checkedAdd_eq_some.mp (Outcome.okOr_eq_ok.mp hrefs)
  exact Op.Yields.ends ⟨(), _, rfl, n, get_of_inodeOf hn, hle, rfl⟩

theorem retainFid_yields {fs : Filesystem} {id : InodeId} {n : Inode}
    (hn : fs.inodes[id]? = some n) (hle : n.fidRefs + 1 ≤ u32Max) :
    retainFid id fs = (.ok (), retained fs id n) := by
  unfold retainFid
  rw [Op.bind_ok (Op.get_apply _), Op.bind_ok (Op.lift_ok (inodeOf_of_get hn) _),
    Op.bind_ok (Op.lift_ok (Outcome.okOr_eq_ok.mpr (checkedAdd_eq_some.mpr ⟨hle, rfl⟩)) _)]
  rfl

/-- A counted fid is released without failing. -/
theorem releaseFid_yields {fs : Filesystem} (h : WellFormed fs) {id : InodeId} {n : Inode}
    (hn : fs.inodes[id]? = some n) (hpos : 0 < n.fidRefs) :
    releaseFid id fs = (.ok (), released fs id n) := by
  unfold releaseFid
  rw [Op.bind_ok (Op.get_apply _), Op.bind_ok (Op.lift_ok (inodeOf_of_get hn) _),
    if_neg (Nat.ne_of_gt hpos), Op.bind_ok (Op.set_apply _ _), released]
  dsimp only
  split
  · have hbody := h.account.body_le_logicalBytes hn
    rw [Op.bind_ok (Op.get_apply _)]
    exact Op.bind_ok (Op.checkedSub_apply hbody _)
  · rfl

theorem releaseFid_ends {fs : Filesystem} (h : WellFormed fs) (id : InodeId) :
    (releaseFid id).Ends fs fun _ fs' => ∃ n, fs.inodes[id]? = some n ∧ 0 < n.fidRefs ∧
      fs' = released fs id n := by
  cases hn : fs.inodes[id]? with
  | none =>
    refine Op.ends_get ?_
    refine Op.ends_lift (inodeOf_ne_panic fs id) fun n hn' => ?_
    rw [get_of_inodeOf hn'] at hn
    cases hn
  | some n =>
    rcases Nat.eq_zero_or_pos n.fidRefs with h0 | hpos
    · refine Op.ends_get ?_
      refine Op.ends_step (Op.lift_ok (inodeOf_of_get hn) _) ?_
      rw [if_pos h0]
      exact Op.ends_fail _
    · exact Op.Yields.ends ⟨(), _, releaseFid_yields h hn hpos, n, rfl, hpos, rfl⟩

theorem retained_wellFormed {fs : Filesystem} (h : WellFormed fs) {id : InodeId} {n : Inode}
    (hn : fs.inodes[id]? = some n) : WellFormed (retained fs id n) := by
  refine .of_parts (h.linked.setInode hn ⟨rfl, rfl, rfl, rfl⟩ rfl) ?_ (h.account.setInode hn rfl)
  exact h.tree.retains.setInode id _ (fun _ => Nat.succ_pos _) rfl

theorem released_wellFormed {fs : Filesystem} (h : WellFormed fs) {id : InodeId} {n : Inode}
    (hn : fs.inodes[id]? = some n) : WellFormed (released fs id n) := by
  have hl : Linked (fs.setInode id { n with fidRefs := n.fidRefs - 1 }) :=
    h.linked.setInode hn ⟨rfl, rfl, rfl, rfl⟩ rfl
  have ha : Accounted (fs.setInode id { n with fidRefs := n.fidRefs - 1 }) :=
    h.account.setInode hn rfl
  unfold released
  dsimp only
  split
  next hgone =>
    have hf : Frees (fs.setInode id { n with fidRefs := n.fidRefs - 1 }) id
        { n with fidRefs := n.fidRefs - 1 } :=
      { stored := by rw [get_setInode, if_pos rfl]
        linkCount := hgone.2
        ne_root := by
          intro hroot
          obtain ⟨r, hr, -, hone, -⟩ := h.linked.root_stored
          rw [← show id = fs.root from hroot, hn] at hr
          cases hr
          have hzero : n.linkCount = 0 := hgone.2
          omega }
    refine .of_parts (hf.keeps hl) ?_ (hf.accounted hl ha)
    intro i m hm
    rw [Frees.get_eq] at hm
    split at hm
    · cases hm
    next hi =>
      rw [get_setInode, if_neg hi] at hm
      exact h.tree.retained hm
  next hkept =>
    refine .of_parts hl (h.tree.retains.setInode id _ ?_ rfl) ha
    intro h0
    rcases Nat.eq_zero_or_pos (n.fidRefs - 1) with hr | hr
    · exact absurd ⟨hr, h0⟩ hkept
    · exact hr

/-! ## A fresh tree -/

/-- A namespace whose only inode is its root. -/
theorem wellFormed_of_root {fs : Filesystem} {r : Inode}
    (hinodes : fs.inodes = (∅ : BTreeMap InodeId Inode).insert fs.root r)
    (hlinks : fs.links = ∅) (hid : r.id = fs.root) (hkind : r.kind = .directory ∅ 1)
    (hparent : r.parent = none) (hcount : r.linkCount = 1) (hlt : fs.root < fs.nextInode)
    (hbytes : fs.logicalBytes = 0) (hentries : fs.directoryEntries = 0) : WellFormed fs := by
  have hget : ∀ {i : InodeId} {n : Inode}, fs.inodes[i]? = some n → i = fs.root ∧ n = r := by
    intro i n hn
    rw [hinodes, BTreeMap.get_insert] at hn
    by_cases hi : fs.root = i
    · rw [if_pos hi] at hn
      cases hn
      exact ⟨hi.symm, rfl⟩
    · rw [if_neg hi] at hn
      simp at hn
  have hroot : fs.inodes[fs.root]? = some r := by
    rw [hinodes, BTreeMap.get_insert, if_pos rfl]
  have hdir : r.kind.isDirectory = true := by rw [hkind]; rfl
  have hnone : ∀ p name, fs.entry p name = none := by
    intro p name
    unfold entry
    cases hp : fs.inodes[p]? with
    | none => rfl
    | some d =>
      rw [(hget hp).2, Option.bind_some, hkind]
      simp [InodeKind.entries]
  have hlinksOf : ∀ i, fs.linksOf i = ∅ := by
    intro i
    rw [linksOf, hlinks]
    simp
  have htotal : ∀ f : InodeId → Inode → Nat, BTreeMap.total f fs.inodes = f fs.root r := by
    intro f
    rw [hinodes, BTreeMap.total_insert_of_none f r (by simp), BTreeMap.total_empty, Nat.add_zero]
  refine .of_parts ?_ ?_ ?_
  · constructor
    case stored_id =>
      intro i n hn
      obtain ⟨rfl, rfl⟩ := hget hn
      exact hid
    case stored_lt =>
      intro i n hn
      rw [(hget hn).1]
      exact hlt
    case root_stored => exact ⟨r, hroot, hdir, hcount, hparent⟩
    case root_unlinked => rw [hlinks]; simp
    case mem_linksOf =>
      intro i p name
      rw [hlinksOf, hnone]
      simp
    case links_nonempty =>
      intro i links hl
      rw [hlinks] at hl
      simp at hl
    case linkCount_eq => exact fun hn hi => absurd (hget hn).1 hi
    case entry_stored =>
      intro p name e he
      rw [hnone] at he
      cases he
    case entry_name =>
      intro p name e he
      rw [hnone] at he
      cases he
    case directory_linked => exact fun hn _ hi _ => absurd (hget hn).1 hi
    case directory_detached =>
      intro i n hn _ h0
      rw [(hget hn).2, hcount] at h0
      cases h0
    case leaf_parent =>
      intro i n hn hleaf
      rw [(hget hn).2, hdir] at hleaf
      cases hleaf
    case climbs =>
      intro i n hn _ _
      rw [(hget hn).1]
      exact .base
  · intro i n hn h0
    rw [(hget hn).2, hcount] at h0
    cases h0
  · constructor
    case logicalBytes_eq => rw [htotal, hkind, hbytes]; rfl
    case directoryEntries_eq =>
      rw [htotal, hkind, hentries]
      simp [InodeKind.entries]
    case logicalBytes_le => rw [hbytes]; exact Nat.zero_le _
    case body_le =>
      intro i n hn
      rw [(hget hn).2, hkind]
      exact Nat.zero_le _
    case target_le =>
      intro i n hn
      rw [(hget hn).2, hkind]
      exact Nat.zero_le _
    case directoryEntries_le => rw [hentries]; exact Nat.zero_le _
    case inodes_le =>
      rw [hinodes, BTreeMap.size_insert_of_none r (by simp)]
      simp

theorem new_wellFormed (identity : Nat) (limits : Limits) (now : UInt64) :
    WellFormed (new identity limits now) :=
  wellFormed_of_root (r := rootInode 1 now) rfl rfl rfl rfl rfl rfl
    (show 1 < 2 from Nat.one_lt_two) rfl rfl

/-- The namespace after a reset, before it is reported. -/
def emptied (fs : Filesystem) : Filesystem :=
  { new fs.identity fs.limits fs.now with
    nextSession := fs.nextSession
    inodes := (∅ : BTreeMap InodeId Inode).insert fs.nextInode
      { rootInode 1 fs.now with id := fs.nextInode }
    root := fs.nextInode
    nextInode := fs.nextInode + 1
    generation := fs.generation + 1
    mutationSource := fs.mutationSource
    recordChanges := fs.recordChanges }

theorem emptied_wellFormed (fs : Filesystem) : WellFormed (emptied fs) :=
  wellFormed_of_root (r := { rootInode 1 fs.now with id := fs.nextInode }) rfl rfl rfl rfl rfl
    rfl (Nat.lt_succ_self fs.nextInode) rfl rfl

theorem reset_ends (fs : Filesystem) :
    reset.Ends fs fun _ fs' => fs.generation + 1 ≤ u64Max ∧ Emits .reset none (emptied fs) fs' := by
  unfold reset
  refine Op.ends_get ?_
  refine Op.ends_lift (Outcome.okOr_ne_panic _ _) fun generation hg => ?_
  obtain ⟨hgeneration, rfl⟩ := checkedAdd_eq_some.mp (Outcome.okOr_eq_ok.mp hg)
  refine Op.ends_lift (Outcome.okOr_ne_panic _ _) fun following hf => ?_
  obtain ⟨hfollowing, rfl⟩ := checkedAdd_eq_some.mp (Outcome.okOr_eq_ok.mp hf)
  refine Op.Yields.ends ?_
  refine Op.yields_step (Op.set_apply _ _) ?_
  have hreplace : replaceRoot fs.nextInode
      { new fs.identity fs.limits fs.now with nextSession := fs.nextSession } =
      (.ok (), { new fs.identity fs.limits fs.now with
        nextSession := fs.nextSession
        inodes := (∅ : BTreeMap InodeId Inode).insert fs.nextInode
          { rootInode 1 fs.now with id := fs.nextInode }
        root := fs.nextInode
        nextInode := fs.nextInode + 1 }) := by
    have hroot : ((∅ : BTreeMap InodeId Inode).insert 1 (rootInode 1 fs.now))[(1 : InodeId)]? =
        some (rootInode 1 fs.now) := by
      rw [BTreeMap.get_insert, if_pos rfl]
    have herase : ((∅ : BTreeMap InodeId Inode).insert 1 (rootInode 1 fs.now)).erase 1 = ∅ := by
      rw [BTreeMap.erase_insert, BTreeMap.erase_of_not_mem (by simp)]
    have hnext : Outcome.okOr FilesystemError.noSpace (checkedAdd u64Max fs.nextInode 1) =
        .ok (fs.nextInode + 1) := Outcome.okOr_eq_ok.mpr (checkedAdd_eq_some.mpr ⟨hfollowing, rfl⟩)
    unfold replaceRoot
    rw [Op.bind_ok (Op.get_apply _), Op.bind_ok (Op.lift_ok hnext _)]
    refine (Op.bind_ok (Op.lift_ok (congrArg Outcome.expect hroot) _)).trans ?_
    rw [Op.set_apply]
    show (Outcome.ok (), { new fs.identity fs.limits fs.now with
      nextSession := fs.nextSession
      inodes := (((∅ : BTreeMap InodeId Inode).insert 1 (rootInode 1 fs.now)).erase 1).insert
        fs.nextInode { rootInode 1 fs.now with id := fs.nextInode }
      root := fs.nextInode
      nextInode := fs.nextInode + 1 }) = _
    rw [herase]
  refine Op.yields_step hreplace ?_
  refine Op.yields_step (Op.modify_apply _ _) ?_
  exact (emit_yields (emptied_wellFormed fs).linked .reset none "" none).mono
    fun _ fs' he => ⟨hgeneration, he⟩

end Riscbox.Filesystem

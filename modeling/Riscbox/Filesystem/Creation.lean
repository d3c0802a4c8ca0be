import Riscbox.Filesystem.Emit

/-!
# Creating files, directories and symlinks

What the creating mutators do to a well-formed namespace, and what their checks establish.
-/

namespace Riscbox.Filesystem

/-! ## Names of a path -/

theorem not_mem_of_splitSlash {path part : List Char} (h : part ∈ splitSlash path) :
    '/' ∉ part ∧ ∀ c ∈ part, c ∈ path := by
  induction path generalizing part with
  | nil =>
    rw [splitSlash, List.mem_singleton] at h
    rw [h]
    exact ⟨by simp, by simp⟩
  | cons c rest ih =>
    rw [splitSlash] at h
    by_cases hc : c = '/'
    · rw [if_pos hc] at h
      rcases List.mem_cons.mp h with rfl | h
      · exact ⟨by simp, by simp⟩
      · exact ⟨(ih h).1, fun a ha => List.mem_cons_of_mem _ ((ih h).2 a ha)⟩
    · rw [if_neg hc] at h
      cases hsplit : splitSlash rest with
      | nil =>
        rw [hsplit] at h
        rw [List.mem_singleton.mp h]
        exact ⟨by simpa [eq_comm] using hc, by simp⟩
      | cons first parts =>
        rw [hsplit] at h ih
        rcases List.mem_cons.mp h with rfl | h
        · have hfirst := ih List.mem_cons_self
          refine ⟨?_, ?_⟩
          · simpa [eq_comm, hfirst.1] using hc
          · intro a ha
            rcases List.mem_cons.mp ha with rfl | ha
            · exact List.mem_cons_self
            · exact List.mem_cons_of_mem _ (hfirst.2 a ha)
        · have hpart := ih (List.mem_cons_of_mem _ h)
          exact ⟨hpart.1, fun a ha => List.mem_cons_of_mem _ (hpart.2 a ha)⟩

/-- Every name of a split path passes the check on literal names. -/
theorem checkName_of_parts {path name : String} {names : List String}
    (h : parts path = .ok names) (hname : name ∈ names) : checkName name = .ok () := by
  unfold parts at h
  split at h
  · cases h
  next hnul =>
    dsimp only at h
    generalize hrel : (if path.toList.head? = some '/' then path.toList.tail else path.toList) =
      relative at h
    have hsub : ∀ c ∈ relative, c ∈ path.toList := by
      intro c hc
      rw [← hrel] at hc
      split at hc
      · exact List.mem_of_mem_tail hc
      · exact hc
    split at h
    · cases h
      simp at hname
    split at h
    · cases h
    next hliteral =>
      split at h
      · cases h
      next hlong =>
        cases h
        obtain ⟨part, hpart, rfl⟩ := List.mem_map.mp hname
        obtain ⟨hslash, hmem⟩ := not_mem_of_splitSlash hpart
        have hdots : ¬(String.ofList part = "" ∨ String.ofList part = "." ∨
            String.ofList part = "..") := by
          intro hbad
          refine hliteral (List.any_eq_true.mpr ⟨_, hname, ?_⟩)
          simpa using hbad
        have hshort : ¬maxNameBytes < (String.ofList part).utf8ByteSize := by
          intro hbad
          exact hlong (List.any_eq_true.mpr ⟨_, hname, by simpa using hbad⟩)
        unfold checkName
        rw [if_neg, if_neg hshort]
        rintro (hb | hb | hb | hb | hb)
        · exact hdots (.inl hb)
        · exact hdots (.inr (.inl hb))
        · exact hdots (.inr (.inr hb))
        · rw [String.toList_ofList] at hb
          exact hslash hb
        · rw [String.toList_ofList] at hb
          exact hnul (hsub _ (hmem _ hb))

theorem parts_ne_panic (path : String) : parts path ≠ .panic := by
  unfold parts
  dsimp only
  split_ifs <;> simp

/-! ## Lookups -/

/-- A stored inode with a link. -/
def Live (fs : Filesystem) (id : InodeId) : Prop :=
  ∃ n, fs.inodes[id]? = some n ∧ 0 < n.linkCount

theorem Linked.live_root {fs : Filesystem} (h : Linked fs) : Live fs fs.root := by
  obtain ⟨n, hn, _, hone, _⟩ := h.root_stored
  exact ⟨n, hn, by omega⟩

theorem Linked.live_entry {fs : Filesystem} (h : Linked fs) {parent : InodeId} {name : String}
    {e : DirectoryEntry} (he : fs.entry parent name = some e) : Live fs e.inode := by
  obtain ⟨n, hn⟩ := h.entry_stored he
  exact ⟨n, hn, h.linkCount_pos he hn⟩

theorem lookupParts_ne_panic (fs : Filesystem) (names : List String) :
    ∀ current, fs.lookupParts current names ≠ .panic := by
  induction names with
  | nil => exact fun current hp => by rw [lookupParts] at hp; cases hp
  | cons name names ih =>
    intro current
    rw [lookupParts]
    refine Outcome.bind_ne_panic (inodeOf_ne_panic fs current) fun inode _ => ?_
    cases inode.kind with
    | directory entries nextCookie =>
      exact Outcome.bind_ne_panic (Outcome.okOr_ne_panic _ _) fun e _ => ih e.inode
    | file body => exact fun hp => by cases hp
    | symlink target => exact fun hp => by cases hp

theorem lookup_ne_panic (fs : Filesystem) (path : String) : fs.lookup path ≠ .panic :=
  Outcome.bind_ne_panic (parts_ne_panic path) fun names _ => lookupParts_ne_panic fs names fs.root

theorem lookupParts_live {fs : Filesystem} (h : Linked fs) {names : List String} :
    ∀ {current id : InodeId}, Live fs current → fs.lookupParts current names = .ok id →
      Live fs id := by
  induction names with
  | nil =>
    intro current id hlive hid
    rw [lookupParts] at hid
    cases hid
    exact hlive
  | cons name names ih =>
    intro current id _ hid
    rw [lookupParts] at hid
    obtain ⟨inode, hinode, hid⟩ := Outcome.bind_eq_ok.mp hid
    have hget := Outcome.okOr_eq_ok.mp hinode
    cases hkind : inode.kind with
    | directory entries nextCookie =>
      rw [hkind] at hid
      obtain ⟨e, he, hid⟩ := Outcome.bind_eq_ok.mp hid
      have hentry : fs.entry current name = some e := by
        rw [entry_of_get hget, hkind]
        exact Outcome.okOr_eq_ok.mp he
      exact ih (h.live_entry hentry) hid
    | file body => rw [hkind] at hid; cases hid
    | symlink target => rw [hkind] at hid; cases hid

theorem lookup_live {fs : Filesystem} (h : Linked fs) {path : String} {id : InodeId}
    (hid : fs.lookup path = .ok id) : Live fs id := by
  obtain ⟨names, _, hid⟩ := Outcome.bind_eq_ok.mp hid
  exact lookupParts_live h h.live_root hid

theorem parent_ne_panic (fs : Filesystem) (path : String) : fs.parent path ≠ .panic := by
  refine Outcome.bind_ne_panic (parts_ne_panic path) fun names _ => ?_
  refine Outcome.bind_ne_panic (Outcome.okOr_ne_panic _ _) fun name _ => ?_
  exact Outcome.bind_ne_panic (lookup_ne_panic fs _) fun parent _ hp => by cases hp

/-- The parent of a path is linked, and its name is valid. -/
theorem parent_eq_ok {fs : Filesystem} (h : Linked fs) {path name : String} {parent : InodeId}
    (hp : fs.parent path = .ok (parent, name)) : checkName name = .ok () ∧ Live fs parent := by
  obtain ⟨names, hnames, hp⟩ := Outcome.bind_eq_ok.mp hp
  obtain ⟨last, hlast, hp⟩ := Outcome.bind_eq_ok.mp hp
  obtain ⟨id, hid, hp⟩ := Outcome.bind_eq_ok.mp hp
  cases hp
  exact ⟨checkName_of_parts hnames (List.mem_of_getLast? (Outcome.okOr_eq_ok.mp hlast)),
    lookup_live h hid⟩

/-! ## Insertion -/

/-- A write, then one record for it. -/
def Reports (kind : ChangeKind) (inode : Option InodeId) (fs fs' : Filesystem) : Prop :=
  ∃ t, Write fs t ∧ t.changes = fs.changes ∧ t.recordChanges = fs.recordChanges ∧
    t.mutationSource = fs.mutationSource ∧ Emits kind inode t fs'

/-- A new inode under a vacant name, not yet reported. -/
def Inserts (fs : Filesystem) (parent : InodeId) (name : String) (kind : InodeKind)
    (fs' : Filesystem) : Prop :=
  ∃ d d' n', Creates fs parent d d' name n' ∧ n'.kind = kind ∧
    fs' = created fs parent d' name n'

theorem Inserts.reports {fs t fs' : Filesystem} {parent : InodeId} {name : String}
    {kind : InodeKind} (h : Inserts fs parent name kind t)
    (he : Emits .create (some fs.nextInode) t fs') :
    Reports .create (some fs.nextInode) fs fs' := by
  obtain ⟨d, d', n', c, -, rfl⟩ := h
  exact ⟨_, .create c, rfl, rfl, rfl, he⟩

/-- The owner of a created inode is set after its creation. -/
theorem Creates.owned {fs : Filesystem} {parent : InodeId} {d d' n' : Inode} {name : String}
    (c : Creates fs parent d d' name n') (uid gid : UInt32) :
    Creates fs parent d d' name { n' with uid := uid, gid := gid } where
  stored := c.stored
  directory := c.directory
  live := c.live
  valid := c.valid
  vacant := c.vacant
  entries := c.entries
  cookie := c.cookie
  nextInode := c.nextInode
  id := c.id
  parent := c.parent
  linkCount := c.linkCount
  fidRefs := c.fidRefs
  empty := c.empty
  inodes := c.inodes
  directoryEntries := c.directoryEntries
  body := c.body
  target := c.target
  bytes := c.bytes

/-- A directory with other entries. -/
def withEntries (d : Inode) (entries : Entries) (nextCookie : Nat) (now : UInt64) : Inode :=
  { d with kind := .directory entries nextCookie }.touch now

theorem withEntries_newEntries {d : Inode} {entries : Entries} {nextCookie : Nat} {now : UInt64}
    (h : d.kind.isDirectory = true) :
    NewEntries d (withEntries d entries nextCookie now) entries nextCookie where
  place := ⟨rfl, h.symm, rfl, rfl⟩
  fidRefs := rfl
  kind := rfl

/-- `insert` counts no bytes: a body is counted by its caller. -/
theorem insert_ends {fs : Filesystem} {parent : InodeId} {name : String}
    {kind : InodeKind} {mode : UInt32} (hname : checkName name = .ok ()) (hlive : Live fs parent)
    (hkind : kind = .directory ∅ 1 ∨ kind.isDirectory = false)
    (hbody : kind.bodyLength ≤ fs.limits.maxFileBytes)
    (htarget : kind.targetLength ≤ maxTargetBytes)
    (hbytes : fs.logicalBytes + kind.bodyLength ≤ fs.limits.maxTreeBytes) :
    (insert parent name kind mode).Ends fs fun id fs' => id = fs.nextInode ∧
      ∃ t, Inserts fs parent name kind t ∧ fs' = { t with logicalBytes := fs.logicalBytes } := by
  obtain ⟨d, hd, hpos⟩ := hlive
  unfold insert
  refine Op.ends_get ?_
  dsimp only
  refine Op.ends_step (by rw [Op.lift_apply, inodeOf_of_get hd]) ?_
  cases hdkind : d.kind with
  | file body => exact Op.ends_fail _
  | symlink target => exact Op.ends_fail _
  | directory entries nextCookie =>
    have hentries : d.kind.entries = entries := by rw [hdkind]; rfl
    have hcookie : d.kind.nextCookie = nextCookie := by rw [hdkind]; rfl
    have hdir : d.kind.isDirectory = true := by rw [hdkind]; rfl
    dsimp only
    by_cases hvacant : entries[name]?.isSome = true
    · rw [if_pos hvacant]
      exact Op.ends_fail _
    rw [if_neg hvacant]
    by_cases hcapacity : fs.limits.maxInodes ≤ fs.inodes.size ∨
        fs.limits.maxDirectoryEntries ≤ fs.directoryEntries
    · rw [if_pos hcapacity]
      exact Op.ends_fail _
    rw [if_neg hcapacity]
    rw [not_or, Nat.not_le, Nat.not_le] at hcapacity
    refine Op.ends_lift (Outcome.okOr_ne_panic _ _) fun nextInode hn => ?_
    obtain ⟨hnext, rfl⟩ := checkedAdd_eq_some.mp (Outcome.okOr_eq_ok.mp hn)
    refine Op.ends_lift (Outcome.okOr_ne_panic _ _) fun following hf => ?_
    obtain ⟨hfollowing, rfl⟩ := checkedAdd_eq_some.mp (Outcome.okOr_eq_ok.mp hf)
    refine Op.Yields.ends ⟨_, _, rfl, rfl, _, ⟨d, _, _, ?_, rfl, rfl⟩, rfl⟩
    exact
      { stored := hd, directory := hdir, live := hpos, valid := hname
        vacant := by rw [hentries]; simpa using hvacant
        entries := by rw [hentries, hcookie]; exact withEntries_newEntries hdir
        cookie := by rw [hcookie]; exact hfollowing
        nextInode := hnext, id := rfl, parent := rfl, linkCount := rfl, fidRefs := rfl
        empty := hkind, inodes := hcapacity.1, directoryEntries := hcapacity.2
        body := hbody, target := htarget, bytes := hbytes }

theorem setInode_setInode (fs : Filesystem) (id : InodeId) (n n' : Inode) :
    (fs.setInode id n).setInode id n' = fs.setInode id n' := by
  have hinodes : (fs.inodes.insert id n).insert id n' = fs.inodes.insert id n' := by
    rw [← BTreeMap.insert_erase, BTreeMap.erase_insert, BTreeMap.insert_erase]
  show { fs with inodes := (fs.inodes.insert id n).insert id n' } = _
  rw [hinodes]
  rfl

/-- A created inode without a body, as `insert` leaves it. -/
theorem created_bytes {fs : Filesystem} {parent : InodeId} {d' n' : Inode} {name : String}
    (h : n'.kind.bodyLength = 0) :
    { created fs parent d' name n' with logicalBytes := fs.logicalBytes } =
      created fs parent d' name n' := by
  rw [created, h]
  rfl

theorem created_setInode {fs : Filesystem} {parent : InodeId} {d' n' n'' : Inode}
    {name : String} (h : n''.kind = n'.kind) :
    (created fs parent d' name n').setInode fs.nextInode n'' = created fs parent d' name n'' := by
  have hset := setInode_setInode (fs.setInode parent d') fs.nextInode n' n''
  have hinodes := congrArg Filesystem.inodes hset
  show { created fs parent d' name n' with
    inodes := (((fs.setInode parent d').setInode fs.nextInode n').setInode fs.nextInode
      n'').inodes } = _
  rw [hinodes, created, created, h]
  rfl

theorem created_get {fs : Filesystem} {parent : InodeId} {d' n' : Inode} {name : String} :
    (created fs parent d' name n').inodes[fs.nextInode]? = some n' := by
  show ((fs.setInode parent d').setInode fs.nextInode n').inodes[fs.nextInode]? = some n'
  rw [get_setInode, if_pos rfl]

/-- A creation, with the path that it reports. -/
theorem createAt_records {fs : Filesystem} (h : WellFormed fs) {parent : InodeId} {name : String}
    {kind : InodeKind} {mode uid gid : UInt32}
    (hkind : kind = .directory ∅ 1 ∨ kind.isDirectory = false) (hbody : kind.bodyLength = 0)
    (htarget : kind.targetLength ≤ maxTargetBytes) :
    (createAt parent name kind mode uid gid).Ends fs fun id fs' => id = fs.nextInode ∧
      ∃ path t, fs.entryPath parent name = .ok path ∧ Inserts fs parent name kind t ∧
        EmitsPath .create (some fs.nextInode) (trimSlashes path) t fs' := by
  unfold createAt
  refine Op.ends_reading (entryPath_ne_panic h.linked parent name) fun path hpath => ?_
  obtain ⟨hname, d, hd, hdir, hpos⟩ := entryPath_eq_ok hpath
  refine Op.ends_step (by rw [Op.reading_apply, inodeOf_of_get hd]) ?_
  dsimp only
  refine Op.Ends.bind (insert_ends hname ⟨d, hd, hpos⟩ hkind (by omega) htarget ?_) ?_
  · have := h.account.logicalBytes_le
    omega
  generalize (if d.mode &&& 0o2000 ≠ 0 then d.gid else gid) = gid
  rintro id fs' ⟨rfl, t, ⟨d, d', n', c, rfl, rfl⟩, rfl⟩
  rw [created_bytes hbody]
  refine Op.yields_step (Op.get_apply _) ?_
  refine Op.yields_step (by rw [Op.lift_apply, created_get, Outcome.expect_some]) ?_
  refine Op.yields_step (Op.set_apply _ _) ?_
  have hset : (created fs parent d' name n').setInode fs.nextInode
      { n' with uid := uid, gid := gid } =
        created fs parent d' name { n' with uid := uid, gid := gid } := created_setInode rfl
  have c := c.owned uid gid
  rw [hset]
  have hl := c.keeps h.linked
  refine (emit_yields_path hl .create (some fs.nextInode) path none).bind fun _ fs' he => ?_
  exact Op.yields_pure ⟨rfl, path, _, hpath, ⟨d, d', _, c, rfl, rfl⟩, he⟩

theorem createAt_ends {fs : Filesystem} (h : WellFormed fs) {parent : InodeId} {name : String}
    {kind : InodeKind} {mode uid gid : UInt32}
    (hkind : kind = .directory ∅ 1 ∨ kind.isDirectory = false) (hbody : kind.bodyLength = 0)
    (htarget : kind.targetLength ≤ maxTargetBytes) :
    (createAt parent name kind mode uid gid).Ends fs fun id fs' => id = fs.nextInode ∧
      ∃ t, Inserts fs parent name kind t ∧ Emits .create (some fs.nextInode) t fs' :=
  (createAt_records h hkind hbody htarget).mono
    fun _ _ ⟨hid, _, t, _, ht, he⟩ => ⟨hid, t, ht, he.emits⟩

theorem createFileAt_ends {fs : Filesystem} (h : WellFormed fs) {parent : InodeId}
    {name : String} {mode uid gid : UInt32} :
    (createFileAt parent name mode uid gid).Ends fs fun id fs' => id = fs.nextInode ∧
      ∃ t, Inserts fs parent name (.file []) t ∧ Emits .create (some fs.nextInode) t fs' :=
  createAt_ends h (.inr rfl) rfl (Nat.zero_le _)

theorem mkdirAt_ends {fs : Filesystem} (h : WellFormed fs) {parent : InodeId}
    {name : String} {mode uid gid : UInt32} :
    (mkdirAt parent name mode uid gid).Ends fs fun id fs' => id = fs.nextInode ∧
      ∃ t, Inserts fs parent name (.directory ∅ 1) t ∧
        Emits .create (some fs.nextInode) t fs' :=
  createAt_ends h (.inl rfl) rfl (Nat.zero_le _)

theorem symlinkAt_ends {fs : Filesystem} (h : WellFormed fs) {parent : InodeId}
    {name target : String} {uid gid : UInt32} :
    (symlinkAt parent name target uid gid).Ends fs fun id fs' => id = fs.nextInode ∧
      ∃ t, Inserts fs parent name (.symlink target) t ∧
        Emits .create (some fs.nextInode) t fs' := by
  unfold symlinkAt
  split
  next => exact Op.ends_fail _
  next hvalid =>
    rw [not_or, Nat.not_lt] at hvalid
    exact createAt_ends h (.inr rfl) rfl hvalid.2

theorem mkdir_ends {fs : Filesystem} (h : WellFormed fs) (path : String) :
    (mkdir path).Ends fs fun id fs' => id = fs.nextInode ∧
      Reports .create (some fs.nextInode) fs fs' := by
  refine Op.ends_reading (parent_ne_panic fs path) fun parent _ => ?_
  exact (mkdirAt_ends h).mono fun id fs' ⟨hid, t, ht, he⟩ => ⟨hid, ht.reports he⟩

theorem symlink_ends {fs : Filesystem} (h : WellFormed fs) (path target : String) :
    (symlink path target).Ends fs fun id fs' => id = fs.nextInode ∧
      Reports .create (some fs.nextInode) fs fs' := by
  refine Op.ends_reading (parent_ne_panic fs path) fun parent _ => ?_
  exact (symlinkAt_ends h).mono fun id fs' ⟨hid, t, ht, he⟩ => ⟨hid, ht.reports he⟩

/-! ## Whole files -/

theorem get_of_inodeOf {fs : Filesystem} {id : InodeId} {n : Inode}
    (h : fs.inodeOf id = .ok n) : fs.inodes[id]? = some n := Outcome.okOr_eq_ok.mp h

theorem replacedSize_ne_panic (fs : Filesystem) (id : Option InodeId) :
    fs.replacedSize id ≠ .panic := by
  cases id with
  | none => simp [replacedSize]
  | some id =>
    refine Outcome.bind_ne_panic (inodeOf_ne_panic fs id) fun n _ => ?_
    cases n.kind <;> simp

/-- A replaced inode is a stored file, of the size found. -/
theorem replacedSize_eq_ok {fs : Filesystem} {id : InodeId} {size : Nat}
    (h : fs.replacedSize (some id) = .ok size) :
    ∃ n, fs.inodes[id]? = some n ∧ n.kind.isFile = true ∧ n.kind.bodyLength = size := by
  obtain ⟨n, hn, h⟩ := Outcome.bind_eq_ok.mp h
  refine ⟨n, get_of_inodeOf hn, ?_⟩
  cases hkind : n.kind with
  | directory entries nextCookie => rw [hkind] at h; cases h
  | file body =>
    rw [hkind] at h
    cases h
    exact ⟨rfl, rfl⟩
  | symlink target => rw [hkind] at h; cases h

/-- A file is written over the one under its path, or created. -/
def WritesFile (fs : Filesystem) (parent : InodeId) (name : String) (bytes : List UInt8)
    (path : String) (id : InodeId) (fs' : Filesystem) : Prop :=
  (∃ e n n', fs.entry parent name = some e ∧ id = e.inode ∧ Rewrites fs id n n' ∧
      EmitsPath .write (some id) (trimSlashes path) (rewritten fs id n n') fs') ∨
    (id = fs.nextInode ∧ ∃ t, Inserts fs parent name (.file bytes) t ∧
      EmitsPath .create (some id) (trimSlashes path) t fs')

theorem writeFile_records {fs : Filesystem} (h : WellFormed fs) (path : String)
    (bytes : List UInt8) :
    (writeFile path bytes).Ends fs fun id fs' => ∃ place, fs.parent path = .ok place ∧
      WritesFile fs place.1 place.2 bytes path id fs' := by
  unfold writeFile
  refine Op.ends_get ?_
  by_cases hlarge : fs.limits.maxFileBytes < bytes.length
  · rw [if_pos hlarge]
    exact Op.ends_fail _
  rw [if_neg hlarge]
  refine Op.ends_lift (parent_ne_panic fs path) fun place hplace => ?_
  obtain ⟨parent, name⟩ := place
  obtain ⟨hname, d, hd, hpos⟩ := parent_eq_ok h.linked hplace
  refine Op.ends_step (by rw [Op.lift_apply, inodeOf_of_get hd]) ?_
  cases hdkind : d.kind with
  | file body => exact Op.ends_fail _
  | symlink target => exact Op.ends_fail _
  | directory entries nextCookie =>
    dsimp only
    refine Op.ends_lift (replacedSize_ne_panic fs _) fun oldSize hold => ?_
    have hentries : ∀ e, entries[name]? = some e → fs.entry parent name = some e := by
      intro e he
      rw [entry_of_get hd, hdkind]
      exact he
    cases hentry : entries[name]? with
    | none =>
      rw [hentry] at hold
      cases hold
      refine Op.ends_step (Op.checkedSub_apply (Nat.zero_le _) fs) ?_
      refine Op.ends_lift (Outcome.okOr_ne_panic _ _) fun newTotal ht => ?_
      obtain ⟨_, rfl⟩ := checkedAdd_eq_some.mp (Outcome.okOr_eq_ok.mp ht)
      by_cases hspace : fs.limits.maxTreeBytes < fs.logicalBytes - 0 + bytes.length
      · rw [if_pos hspace]
        exact Op.ends_fail _
      rw [if_neg hspace]
      refine Op.Ends.bind (insert_ends hname ⟨d, hd, hpos⟩ (.inr rfl)
        (Nat.le_of_not_lt hlarge) (Nat.zero_le _) (Nat.le_of_not_lt hspace)) ?_
      rintro id fs' ⟨rfl, t, ⟨d, d', n', c, hkind, rfl⟩, rfl⟩
      refine Op.yields_step (Op.pure_apply _ _) ?_
      refine Op.yields_step (Op.modify_apply _ _) ?_
      have htotal : { { created fs parent d' name n' with logicalBytes := fs.logicalBytes } with
          logicalBytes := fs.logicalBytes - 0 + bytes.length } = created fs parent d' name n' := by
        rw [created, hkind]
        rfl
      rw [htotal]
      refine (emit_yields_path (c.keeps h.linked) .create (some fs.nextInode) path none).bind
        fun _ fs' he => ?_
      exact Op.yields_pure ⟨_, hplace, .inr ⟨rfl, _, ⟨d, d', n', c, hkind, rfl⟩, he⟩⟩
    | some e =>
      rw [hentry] at hold
      obtain ⟨n, hn, hfile, rfl⟩ := replacedSize_eq_ok hold
      have hle := h.account.body_le_logicalBytes hn
      refine Op.ends_step (Op.checkedSub_apply hle fs) ?_
      refine Op.ends_lift (Outcome.okOr_ne_panic _ _) fun newTotal ht => ?_
      obtain ⟨_, rfl⟩ := checkedAdd_eq_some.mp (Outcome.okOr_eq_ok.mp ht)
      by_cases hspace : fs.limits.maxTreeBytes < fs.logicalBytes - n.kind.bodyLength + bytes.length
      · rw [if_pos hspace]
        exact Op.ends_fail _
      rw [if_neg hspace]
      have c : Rewrites fs e.inode n ({ n with kind := .file bytes }.touch fs.now) :=
        { stored := hn, file := hfile, file' := rfl
          place := ⟨rfl, (isDirectory_of_isFile hfile).symm, rfl, rfl⟩
          fidRefs := rfl, body := Nat.le_of_not_lt hlarge, bytes := Nat.le_of_not_lt hspace }
      have hinode : Op.lift (fs.inodeOf e.inode) fs = (.ok n, fs) := by
        rw [Op.lift_apply, inodeOf_of_get hn]
      refine Op.ends_step hinode (Op.Yields.ends ?_)
      refine Op.yields_step (Op.set_apply _ _) ?_
      refine Op.yields_step (Op.pure_apply _ _) ?_
      refine Op.yields_step (Op.modify_apply _ _) ?_
      have hl : Linked (rewritten fs e.inode n ({ n with kind := .file bytes }.touch fs.now)) :=
        ((Write.rewrite c).wellFormed h).linked
      refine (emit_yields_path hl .write (some e.inode) path none).bind fun _ fs' he => ?_
      exact Op.yields_pure ⟨_, hplace, .inl ⟨e, n, _, hentries e hentry, rfl, c, he⟩⟩

theorem writeFile_ends {fs : Filesystem} (h : WellFormed fs) (path : String)
    (bytes : List UInt8) :
    (writeFile path bytes).Ends fs fun id fs' =>
      (fs.inodes[id]?.isSome = true ∧ Reports .write (some id) fs fs') ∨
        (id = fs.nextInode ∧ Reports .create (some id) fs fs') := by
  refine (writeFile_records h path bytes).mono ?_
  rintro id fs' ⟨place, -, ⟨e, n, n', -, -, c, he⟩ | ⟨rfl, t, ht, he⟩⟩
  · exact .inl ⟨by rw [c.stored]; rfl, _, .rewrite c, rfl, rfl, rfl, he.emits⟩
  · exact .inr ⟨rfl, ht.reports he.emits⟩

end Riscbox.Filesystem

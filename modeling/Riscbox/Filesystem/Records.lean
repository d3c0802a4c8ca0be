import Riscbox.Filesystem.Changes
import Riscbox.Filesystem.Renamed

/-!
# The path of a record

The record of a creation, a link, a rename or a write names the inode by a path that
leads to it.
-/

namespace Riscbox.Filesystem

/-! ## Spelled paths -/

theorem spell_eq_intercalate {names : List String} (h : ValidNames names) :
    spell names = "/".intercalate names := by
  induction names with
  | nil => rw [String.intercalate_nil]; rfl
  | cons first names ih =>
    have hnames := (ValidNames.cons.mp h).2
    cases names with
    | nil => rw [spell_singleton, String.intercalate_singleton]
    | cons second names =>
      rw [spell_cons_cons hnames, ih hnames, String.intercalate_cons_cons]

theorem spell_concat {names : List String} {name : String}
    (h : ValidNames (names ++ [name])) (hne : names ≠ []) :
    spell (names ++ [name]) = spell names ++ "/" ++ name := by
  rw [spell_eq_intercalate h, spell_eq_intercalate (ValidNames.append.mp h).1,
    String.intercalate_append_of_ne_nil hne (by simp), String.intercalate_singleton]

/-- Nothing is trimmed from a path without a leading slash. -/
theorem dropWhile_of_head {path : List Char} (h : path.head? ≠ some '/') :
    path.dropWhile (· = '/') = path := by
  cases path with
  | nil => rfl
  | cons c path =>
    have hc : ¬c = '/' := by simpa using h
    rw [List.dropWhile_cons, if_neg (by simpa using hc)]

/-- Trimming leaves the names of a path. -/
theorem trimSlashes_of_parts {path : String} {names : List String}
    (h : parts path = .ok names) : trimSlashes path = spell names := by
  have hspell := spell_of_parts h
  have hhead := head_spell (validNames_of_parts h)
  rw [hspell, String.toList_ofList] at hhead
  rw [hspell, trimSlashes]
  unfold relative at hhead ⊢
  split at hhead
  next hslash =>
    rw [if_pos hslash]
    obtain ⟨rest, hrest⟩ := List.head?_eq_some_iff.mp hslash
    rw [hrest, List.tail_cons] at hhead ⊢
    rw [List.dropWhile_cons, if_pos (by simp), dropWhile_of_head hhead]
  next hslash => rw [if_neg hslash, dropWhile_of_head hhead]

theorem trimSlashes_spell {names : List String} (h : ValidNames names) :
    trimSlashes (spell names) = spell names := trimSlashes_of_parts (parts_spell h)

/-- The path of an entry, when changes are recorded. -/
theorem entryPath_names {fs : Filesystem} (h : Linked fs) {parent : InodeId} {name path : String}
    (hpath : fs.entryPath parent name = .ok path) (hon : fs.recordChanges = true) :
    ∃ names, fs.lookupParts fs.root names = .ok parent ∧ ValidNames (names ++ [name]) ∧
      path = spell (names ++ [name]) := by
  obtain ⟨hname, d, hd, hdir, hpos⟩ := entryPath_eq_ok hpath
  obtain ⟨pre, hpre⟩ := pathsOf_directory h hd hdir hpos
  obtain ⟨names, hnames, rfl⟩ := (mem_pathsOf h hpre pre).mp (List.mem_singleton_self pre)
  have hvalid := h.names_valid hnames
  have hall : ValidNames (names ++ [name]) :=
    ValidNames.append.mpr ⟨hvalid, List.forall_mem_singleton.mpr hname⟩
  refine ⟨names, hnames, hall, ?_⟩
  unfold entryPath at hpath
  rw [hname, Outcome.ok_bind, inodeOf_of_get hd, Outcome.ok_bind, if_neg (by simp [hdir]),
    if_neg (Nat.ne_of_gt hpos), if_neg (by simp [hon]), hpre] at hpath
  cases hpath
  by_cases hnil : names = []
  · subst hnil
    rw [spell, if_pos rfl, List.nil_append, spell_singleton]
  · rw [if_neg (fun he => hnil ((spell_eq_empty hvalid).mp he)), spell_concat hall hnil]

/-- A path is that of its parent, and its last name. -/
theorem parent_names {fs : Filesystem} {path : String} {place : InodeId × String}
    (hplace : fs.parent path = .ok place) : ∃ names, parts path = .ok (names ++ [place.2]) ∧
      fs.lookupParts fs.root names = .ok place.1 := by
  obtain ⟨names, hparts, hplace⟩ := Outcome.bind_eq_ok.mp hplace
  obtain ⟨name, hlast, hplace⟩ := Outcome.bind_eq_ok.mp hplace
  obtain ⟨parent, hlookup, hplace⟩ := Outcome.bind_eq_ok.mp hplace
  cases hplace
  have hsplit := List.dropLast_append_getLast? name (Outcome.okOr_eq_ok.mp hlast)
  refine ⟨names.dropLast, by rw [hsplit, hparts], ?_⟩
  have hvalid := validNames_of_parts hparts
  rw [← hsplit, ValidNames.append] at hvalid
  rw [← spell_eq_intercalate hvalid.1, lookup_spell hvalid.1] at hlookup
  exact hlookup

/-! ## Lookups survive more entries -/

/-- No entry is gone or names another inode. -/
def KeepsEntries (fs fs' : Filesystem) : Prop :=
  ∀ p m e, fs.entry p m = some e → ∃ e', fs'.entry p m = some e' ∧ e'.inode = e.inode

theorem KeepsEntries.lookupParts {fs fs' : Filesystem} (h : KeepsEntries fs fs') :
    ∀ {names : List String} {c id : InodeId}, fs.lookupParts c names = .ok id →
      fs'.lookupParts c names = .ok id := by
  intro names
  induction names with
  | nil => exact fun hid => hid
  | cons name names ih =>
    intro c id hid
    obtain ⟨e, he, hid⟩ := lookupParts_cons.mp hid
    obtain ⟨e', he', hi⟩ := h c name e he
    exact lookupParts_cons.mpr ⟨e', he', by rw [hi]; exact ih hid⟩

/-- The entry under a path is found by the path. -/
theorem KeepsEntries.lookup_concat {fs fs' : Filesystem} (h : KeepsEntries fs fs')
    (hroot : fs'.root = fs.root) {names : List String} {name : String} {parent id : InodeId}
    (hnames : fs.lookupParts fs.root names = .ok parent) (hvalid : ValidNames (names ++ [name]))
    (hentry : ∃ e, fs'.entry parent name = some e ∧ e.inode = id) :
    fs'.lookup (spell (names ++ [name])) = .ok id := by
  obtain ⟨e, he, hi⟩ := hentry
  rw [lookup_spell hvalid, hroot]
  exact lookupParts_concat.mpr ⟨parent, e, h.lookupParts hnames, he, hi⟩

theorem SameTree.lookup {fs fs' : Filesystem} (t : SameTree fs fs') (path : String) :
    fs'.lookup path = fs.lookup path := by
  have hparts : ∀ (names : List String) (c : InodeId),
      fs'.lookupParts c names = fs.lookupParts c names := by
    intro names
    induction names with
    | nil => exact fun _ => rfl
    | cons name names ih =>
      intro c
      rw [Filesystem.lookupParts, Filesystem.lookupParts, inodeOf, inodeOf, t.inodes]
      simp only [ih]
  rw [Filesystem.lookup, Filesystem.lookup, t.root]
  simp only [hparts]

theorem Inserts.keepsEntries {fs t : Filesystem} {parent : InodeId} {name : String}
    {kind : InodeKind} (h : Linked fs) (i : Inserts fs parent name kind t) :
    KeepsEntries fs t ∧ ∃ e, t.entry parent name = some e ∧ e.inode = fs.nextInode := by
  obtain ⟨d, d', n', c, -, rfl⟩ := i
  have hentry := c.entry_eq h
  constructor
  · intro p m e he
    have hne : ¬(p = parent ∧ m = name) := by
      rintro ⟨rfl, rfl⟩
      rw [entry_of_get c.stored, c.vacant] at he
      cases he
    exact ⟨e, by rw [hentry, if_neg hne, he], rfl⟩
  · rw [hentry, if_pos ⟨rfl, rfl⟩]
    exact ⟨_, rfl, rfl⟩

theorem Links.keepsEntries {fs : Filesystem} {parent id : InodeId} {d d' n n' : Inode}
    {name : String} (c : Links fs parent d d' name id n n') :
    KeepsEntries fs (linked fs parent d' name id n') ∧
      ∃ e, (linked fs parent d' name id n').entry parent name = some e ∧ e.inode = id := by
  constructor
  · intro p m e he
    have hne : ¬(p = parent ∧ m = name) := by
      rintro ⟨rfl, rfl⟩
      rw [entry_of_get c.stored, c.vacant] at he
      cases he
    exact ⟨e, by rw [c.entry_eq, if_neg hne, he], rfl⟩
  · rw [c.entry_eq, if_pos ⟨rfl, rfl⟩]
    exact ⟨_, rfl, rfl⟩

theorem Rewrites.keepsEntries {fs : Filesystem} {id : InodeId} {n n' : Inode}
    (c : Rewrites fs id n n') : KeepsEntries fs (rewritten fs id n n') := by
  intro p m e he
  refine ⟨e, ?_, rfl⟩
  have hentry : (rewritten fs id n n').entry p m = (fs.setInode id n').entry p m := rfl
  rw [hentry, entry_setInode]
  by_cases hp : id = p
  · rw [← hp, entry_of_get c.stored, entries_of_leaf (isDirectory_of_isFile c.file)] at he
    simp at he
  · rw [if_neg hp, he]

/-! ## Records -/

/-- The kinds of record that name a linked inode. -/
def Naming (kind : ChangeKind) : Prop := kind = .create ∨ kind = .rename ∨ kind = .write

/-- What a step put into the queue names its inode by a path that leads to it. -/
def RecordsName (fs fs' : Filesystem) : Prop :=
  ∀ c ∈ fs'.changes.drop fs.changes.length, Naming c.kind →
    ∃ id, c.inode = some id ∧ (Live fs' id → fs'.lookup c.path = .ok id)

theorem RecordsName.refl (fs : Filesystem) : RecordsName fs fs := by
  intro c hc
  rw [List.drop_length] at hc
  cases hc

theorem mem_drop_push {fs : Filesystem} {change c : Change} {k : Nat}
    (hc : c ∈ (fs.push change).drop k) :
    c ∈ fs.changes.drop k ∨ c.kind = .rescan ∨ (c = change ∧ fs.recordChanges = true) := by
  rcases push_cases change with ⟨_, hpush⟩ | ⟨hon, ⟨_, hpush⟩ | hpush | ⟨_, hpush, _⟩⟩ <;>
    rw [hpush] at hc
  · exact .inl hc
  · exact .inl hc
  · rw [List.mem_singleton.mp (List.mem_of_mem_drop hc)]
    exact .inr (.inl rfl)
  · rw [List.drop_append] at hc
    rcases List.mem_append.mp hc with hc | hc
    · exact .inl hc
    · rw [List.mem_singleton.mp (List.mem_of_mem_drop hc)]
      exact .inr (.inr ⟨rfl, hon⟩)

/-- The record of one emission, after records of other kinds. -/
theorem EmitsPath.recordsName {fs t fs' : Filesystem} {kind : ChangeKind} {id : InodeId}
    {path : String} (he : EmitsPath kind (some id) path t fs') (hq : Queued t)
    (hbefore : ∀ c ∈ t.changes.drop fs.changes.length, ¬Naming c.kind)
    (hname : t.recordChanges = true → Live t id → t.lookup path = .ok id) :
    RecordsName fs fs' := by
  have hsame := he.emits.sameTree
  obtain ⟨change, changes, -, hinode, hpath, -, rfl, hpush⟩ := he
  obtain rfl := hpush hq
  intro c hc hkind
  rcases mem_drop_push hc with hold | hrescan | ⟨rfl, hon⟩
  · exact absurd hkind (hbefore c hold)
  · rw [hrescan] at hkind
    rcases hkind with hkind | hkind | hkind <;> cases hkind
  · refine ⟨id, hinode, fun hlive => ?_⟩
    rw [hpath, hsame.lookup]
    exact hname hon hlive

theorem not_naming_of_same {fs t : Filesystem} (h : t.changes = fs.changes) :
    ∀ c ∈ t.changes.drop fs.changes.length, ¬Naming c.kind := by
  intro c hc
  rw [h, List.drop_length] at hc
  cases hc

/-- A creation under a path that is checked before it. -/
theorem Inserts.recordsName {fs t fs' : Filesystem} {parent : InodeId} {name path : String}
    {kind : InodeKind} (i : Inserts fs parent name kind t)
    (he : EmitsPath .create (some fs.nextInode) (trimSlashes path) t fs') (h : WellFormed fs)
    (hq : Queued fs)
    (hpath : fs.recordChanges = true → ∃ names, fs.lookupParts fs.root names = .ok parent ∧
      ValidNames (names ++ [name]) ∧ trimSlashes path = spell (names ++ [name])) :
    RecordsName fs fs' := by
  obtain ⟨hkeeps, hentry⟩ := i.keepsEntries h.linked
  obtain ⟨d, d', n', c, -, rfl⟩ := i
  refine he.recordsName (hq.congr rfl rfl) (not_naming_of_same rfl) fun hon _ => ?_
  obtain ⟨names, hnames, hvalid, hspell⟩ := hpath hon
  rw [hspell]
  exact hkeeps.lookup_concat rfl hnames hvalid hentry

theorem createAt_recordsName {fs : Filesystem} (h : WellFormed fs) (hq : Queued fs)
    {parent : InodeId} {name : String} {kind : InodeKind} {mode uid gid : UInt32}
    (hkind : kind = .directory ∅ 1 ∨ kind.isDirectory = false) (hbody : kind.bodyLength = 0)
    (htarget : kind.targetLength ≤ maxTargetBytes) :
    (createAt parent name kind mode uid gid).Ends fs fun _ fs' => RecordsName fs fs' := by
  refine (createAt_records h hkind hbody htarget).mono ?_
  rintro _ fs' ⟨-, path, t, hpath, ht, he⟩
  refine ht.recordsName he h hq fun hon => ?_
  obtain ⟨names, hnames, hvalid, rfl⟩ := entryPath_names h.linked hpath hon
  exact ⟨names, hnames, hvalid, trimSlashes_spell hvalid⟩

theorem symlinkAt_recordsName {fs : Filesystem} (h : WellFormed fs) (hq : Queued fs)
    {parent : InodeId} {name target : String} {uid gid : UInt32} :
    (symlinkAt parent name target uid gid).Ends fs fun _ fs' => RecordsName fs fs' := by
  unfold symlinkAt
  split
  next => exact Op.ends_fail _
  next hvalid =>
    rw [not_or, Nat.not_lt] at hvalid
    exact createAt_recordsName h hq (.inr rfl) rfl hvalid.2

theorem writeFile_recordsName {fs : Filesystem} (h : WellFormed fs) (hq : Queued fs)
    (path : String) (bytes : List UInt8) :
    (writeFile path bytes).Ends fs fun _ fs' => RecordsName fs fs' := by
  refine (writeFile_records h path bytes).mono ?_
  rintro id fs' ⟨place, hplace, hwrites⟩
  obtain ⟨names, hparts, hnames⟩ := parent_names hplace
  have hvalid := validNames_of_parts hparts
  have hspell := trimSlashes_of_parts hparts
  rcases hwrites with ⟨e, n, n', hentry, rfl, c, he⟩ | ⟨rfl, t, ht, he⟩
  · refine he.recordsName (hq.congr rfl rfl) (not_naming_of_same rfl) fun _ _ => ?_
    rw [hspell]
    exact c.keepsEntries.lookup_concat rfl hnames hvalid (c.keepsEntries _ _ e hentry)
  · exact ht.recordsName he h hq fun _ => ⟨names, hnames, hvalid, hspell⟩

theorem linkAt_recordsName {fs : Filesystem} (h : WellFormed fs) (hq : Queued fs)
    (parent : InodeId) (name : String) (id : InodeId) :
    (linkAt parent name id).Ends fs fun _ fs' => RecordsName fs fs' := by
  refine (linkAt_records h parent name id).mono ?_
  rintro _ fs' ⟨path, d, d', n, n', hpath, c, he⟩
  refine he.recordsName (hq.congr rfl rfl) (not_naming_of_same rfl) fun hon _ => ?_
  obtain ⟨names, hnames, hvalid, rfl⟩ := entryPath_names h.linked hpath hon
  rw [trimSlashes_spell hvalid]
  exact c.keepsEntries.1.lookup_concat rfl hnames hvalid c.keepsEntries.2

theorem Replaced.changes {fs s : Filesystem} {parent : InodeId} {name : String}
    (r : Replaced fs parent name s) (hq : Queued fs) :
    Queued s ∧ s.recordChanges = fs.recordChanges ∧
      ∀ c ∈ s.changes.drop fs.changes.length, ¬Naming c.kind := by
  rcases r with ⟨_, rfl⟩ | ⟨e, u, hr, he⟩
  · exact ⟨hq, rfl, not_naming_of_same rfl⟩
  · have hu := hq.congr hr.changes_eq hr.recordChanges_eq
    have hs := he.queue hu (fun hkind => by cases hkind)
    refine ⟨hs.queued, hs.recordChanges.trans hr.recordChanges_eq, ?_⟩
    obtain ⟨change, changes, hkind, -, -, rfl, hpush⟩ := he
    obtain rfl := hpush hu
    intro c hc hnaming
    rcases mem_drop_push hc with hold | hrescan | ⟨rfl, -⟩
    · rw [hr.changes_eq, List.drop_length] at hold
      cases hold
    · rw [hrescan] at hnaming
      rcases hnaming with h | h | h <;> cases h
    · rw [hkind] at hnaming
      rcases hnaming with h | h | h <;> cases h

theorem renameAt_recordsName {fs : Filesystem} (h : WellFormed fs) (hq : Queued fs)
    (oldParent : InodeId) (oldName : String) (newParent : InodeId) (newName : String) :
    (renameAt oldParent oldName newParent newName).Ends fs fun _ fs' => RecordsName fs fs' := by
  refine (renameAt_records h oldParent oldName newParent newName).mono ?_
  rintro _ fs' ⟨e, hentry, ⟨rfl, -⟩ | ⟨path, s, t, hpath, hother, hs, ht, he⟩⟩
  · exact .refl fs'
  obtain ⟨hqs, hrecord, hbefore⟩ := hs.changes hq
  have c := ht.carries hs (.refl t) h hentry hother
  obtain ⟨d, d₁, d', d₂, cookie, nextCookie, n, n', hmoves, rfl⟩ := ht
  refine he.recordsName (hqs.congr rfl rfl) hbefore fun hon _ => ?_
  have hon : fs.recordChanges = true := hrecord.symm.trans hon
  obtain ⟨newDir, hnewDir, hvalid, rfl⟩ := entryPath_names h.linked hpath hon
  obtain ⟨l, hl, -⟩ := h.linked.climb_of_entry hentry
  obtain ⟨oldDir, holdDir⟩ := h.linked.climb_names hl
  rw [trimSlashes_spell hvalid, lookup_spell hvalid, c.root, c.moved holdDir hnewDir [],
    lookupParts_append_ok holdDir, lookupParts_of_entry hentry]
  rfl

/-- The first path of a linked inode leads to it. -/
theorem lookup_firstPath {fs : Filesystem} (h : Linked fs) {id : InodeId} (hlive : Live fs id) :
    fs.lookup (fs.firstPath id) = .ok id := by
  obtain ⟨paths, hpaths⟩ := pathsOf_total h id
  have hemitted : fs.emittedPaths (some id) = paths := by rw [emittedPaths, hpaths]; rfl
  have hne : paths ≠ [] := by
    intro hnil
    obtain ⟨n, hn, hpos⟩ := hlive
    by_cases hid : id = fs.root
    · rw [pathsOf, if_pos hid, hnil] at hpaths
      cases hpaths
    · have hlength := (pathsOf_sorted h hpaths).2 hid
      rw [hnil, List.length_nil, ← h.linkCount_eq hn hid] at hlength
      omega
  obtain ⟨path, rest, rfl⟩ := List.exists_cons_of_ne_nil hne
  rw [firstPath, hemitted]
  exact ((mem_pathsOf_iff_lookup h hpaths path).mp List.mem_cons_self).2

theorem ReportsInode.recordsName {fs fs' : Filesystem} {kind : ChangeKind} {id : InodeId}
    (hr : ReportsInode kind id fs fs') (h : WellFormed fs) (hq : Queued fs) :
    RecordsName fs fs' := by
  obtain ⟨t, w, hchanges, hrecord, -, he⟩ := hr
  refine he.recordsName (hq.congr hchanges hrecord) (not_naming_of_same hchanges) fun _ hlive => ?_
  exact lookup_firstPath (w.wellFormed h).linked hlive

/-- Calls that report neither a creation, nor a rename, nor a write. -/
theorem Call.recordsName_of_subjects {fs : Filesystem} {call : Call} (h : WellFormed fs)
    (hq : Queued fs)
    (hkinds : ∀ answer, ∀ s ∈ call.subjects fs answer, ¬Naming s.1) :
    RecordsName fs (call.after fs) := by
  obtain ⟨log, ⟨kept, hafter, hkept⟩, hall⟩ := (Call.queues h hq call).log
  intro c hc hnaming
  have hlength : kept.length ≤ fs.changes.length := by
    rcases hkept with hkept | ⟨rfl, -⟩
    · rw [hkept, List.length_append]
      omega
    · exact Nat.zero_le _
  rw [hafter, List.drop_append, List.drop_eq_nil_of_le hlength, List.nil_append] at hc
  rcases hall c (List.mem_of_mem_drop hc) with hrescan | ⟨answer, -, hsubject⟩
  · rw [hrescan] at hnaming
    rcases hnaming with h | h | h <;> cases h
  · exact absurd hnaming (hkinds answer _ hsubject)

theorem Op.Ends.recordsName {α : Type} {x : FsOp α} {fs : Filesystem}
    (h : x.Ends fs fun _ fs' => RecordsName fs fs') (f : α → Answer) :
    RecordsName fs (Op.after (f <$> x) fs) := by
  rw [Op.after, Op.map_snd]
  rcases h.after_cases with hsame | ⟨_, _, hnames⟩
  · rw [Op.after] at hsame
    rw [hsame]
    exact .refl fs
  · exact hnames

theorem Call.recordsName {fs : Filesystem} (h : WellFormed fs) (hq : Queued fs) (call : Call) :
    RecordsName fs (call.after fs) := by
  have hremove : ¬Naming .remove := by simp [Naming]
  have hmetadata : ¬Naming .metadata := by simp [Naming]
  cases call with
  | mkdir path =>
    refine Op.Ends.recordsName (Op.ends_reading (parent_ne_panic fs path) fun place _ => ?_) _
    exact createAt_recordsName h hq (.inl rfl) rfl (Nat.zero_le _)
  | symlink path target =>
    refine Op.Ends.recordsName (Op.ends_reading (parent_ne_panic fs path) fun place _ => ?_) _
    exact symlinkAt_recordsName h hq
  | writeFile path bytes => exact Op.Ends.recordsName (writeFile_recordsName h hq path bytes) _
  | createFileAt parent name mode uid gid =>
    exact Op.Ends.recordsName (createAt_recordsName h hq (.inr rfl) rfl (Nat.zero_le _)) _
  | mkdirAt parent name mode uid gid =>
    exact Op.Ends.recordsName (createAt_recordsName h hq (.inl rfl) rfl (Nat.zero_le _)) _
  | symlinkAt parent name target uid gid =>
    exact Op.Ends.recordsName (symlinkAt_recordsName h hq) _
  | linkAt parent name id => exact Op.Ends.recordsName (linkAt_recordsName h hq parent name id) _
  | hardLink existing newPath =>
    refine Op.Ends.recordsName (Op.ends_reading (lookup_ne_panic fs existing) fun id _ => ?_) _
    refine Op.ends_reading (parent_ne_panic fs newPath) fun place _ => ?_
    exact linkAt_recordsName h hq place.1 place.2 id
  | renameAt oldParent oldName newParent newName =>
    exact Op.Ends.recordsName (renameAt_recordsName h hq oldParent oldName newParent newName) _
  | rename oldPath newPath =>
    refine Op.Ends.recordsName (Op.ends_reading (parent_ne_panic fs oldPath) fun old _ => ?_) _
    refine Op.ends_reading (parent_ne_panic fs newPath) fun new _ => ?_
    exact renameAt_recordsName h hq old.1 old.2 new.1 new.2
  | writeInode id offset data append =>
    refine Op.Ends.recordsName ((writeInode_records h id offset data append).mono ?_) _
    rintro _ fs' (⟨-, rfl⟩ | ⟨-, hr⟩)
    · exact .refl fs'
    · exact hr.recordsName h hq
  | updateAttributes id update =>
    refine Op.Ends.recordsName ((updateAttributes_records h id update).mono ?_) _
    rintro _ fs' ⟨⟨-, rfl⟩ | ⟨-, hr⟩, -⟩
    · exact .refl fs'
    · exact hr.recordsName h hq
  | setMetadata id update =>
    refine Call.recordsName_of_subjects h hq fun answer s hs => ?_
    have hs : s ∈ if update = Metadata.default then [] else [(ChangeKind.metadata, some id)] := hs
    by_cases hupdate : update = Metadata.default
    · rw [if_pos hupdate] at hs
      cases hs
    · rw [if_neg hupdate] at hs
      rw [List.mem_singleton.mp hs]
      exact hmetadata
  | removeAt parent name =>
    refine Call.recordsName_of_subjects h hq fun answer s hs => ?_
    rw [List.mem_singleton.mp hs]
    exact hremove
  | remove path =>
    refine Call.recordsName_of_subjects h hq fun answer s hs => ?_
    cases hplace : fs.parent path with
    | ok place =>
      unfold Call.subjects at hs
      simp only [hplace] at hs
      rw [List.mem_singleton.mp hs]
      exact hremove
    | err e | panic =>
      unfold Call.subjects at hs
      simp only [hplace] at hs
      cases hs
  | clear =>
    refine Call.recordsName_of_subjects h hq fun answer s hs => ?_
    cases hremovals : fs.gatherRemovals fs.inodes.size [fs.root] [] with
    | ok removals =>
      unfold Call.subjects at hs
      simp only [hremovals] at hs
      obtain ⟨r, -, rfl⟩ := List.mem_map.mp hs
      exact hremove
    | err e | panic =>
      unfold Call.subjects at hs
      simp only [hremovals] at hs
      cases hs
  | reset =>
    refine Call.recordsName_of_subjects h hq fun answer s hs => ?_
    rw [List.mem_singleton.mp hs]
    simp [Naming]
  | _ =>
    refine Call.recordsName_of_subjects h hq fun answer s hs => ?_
    cases hs

end Riscbox.Filesystem

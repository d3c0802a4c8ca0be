import Riscbox.Filesystem.Write

/-!
# Emitting a record

In a linked tree every climb ends, so an emission does not fail.  It only touches the
queue, and `push` says how.
-/

namespace Riscbox.Filesystem

/-! ## The climb of `pathsOf` ends -/

/-- The link of a directory on the way to the root. -/
theorem Linked.linksOf_directory {fs : Filesystem} (h : Linked fs) {x p : InodeId}
    (hx : x ≠ fs.root) (hp : fs.parentInode x = some p) :
    ∃ name, (fs.linksOf x).toList = [(p, name)] := by
  obtain ⟨name, e, he, rfl⟩ := h.entry_of_parent hp
  obtain ⟨n, hn⟩ := h.entry_stored he
  have hdir : n.kind.isDirectory = true := by
    by_contra hleaf
    rw [parentInode_of_get hn, h.leaf_parent hn (by simpa using hleaf)] at hp
    cases hp
  obtain ⟨_, _, hsize⟩ := h.directory_entry he hn hdir
  exact ⟨name, BTreeSet.toList_of_size_one hsize (h.entry_linked he)⟩

/-- An alias that starts on a climb costs one round of the loop for each of its nodes. -/
theorem climbLinks_climb {fs : Filesystem} (h : Linked fs) {x : InodeId} {l : List InodeId}
    (hl : Climb fs.parentInode fs.root x l) :
    ∀ (suffix : String) (fuel : Nat) (rest : List (InodeId × String)) (result : List String),
      ∃ path, fs.climbLinks (l.length + fuel) ((x, suffix) :: rest) result =
        fs.climbLinks fuel rest (result ++ [path]) := by
  induction hl with
  | root =>
    intro suffix fuel rest result
    refine ⟨suffix, ?_⟩
    rw [List.length_singleton, Nat.add_comm, climbLinks, if_pos rfl]
  | @up x p l hx hp _ ih =>
    intro suffix fuel rest result
    obtain ⟨name, hlinks⟩ := h.linksOf_directory hx hp
    obtain ⟨path, hpath⟩ := ih (joinSuffix name suffix) fuel rest result
    refine ⟨path, ?_⟩
    rw [List.length_cons, Nat.add_right_comm, climbLinks, if_neg hx, hlinks]
    exact hpath

theorem climbLinks_all {fs : Filesystem} (h : Linked fs) (bound : Nat) :
    ∀ (items : List (InodeId × String)) (fuel : Nat) (result : List String),
      (∀ item ∈ items, ∃ l, Climb fs.parentInode fs.root item.1 l ∧ l.length ≤ bound) →
      items.length * bound ≤ fuel → ∃ paths, fs.climbLinks fuel items result = some paths := by
  intro items
  induction items with
  | nil => exact fun fuel result _ _ => ⟨result, by rw [climbLinks]⟩
  | cons item items ih =>
    intro fuel result hitems hfuel
    obtain ⟨l, hl, hlen⟩ := hitems item List.mem_cons_self
    have hmul : (item :: items).length * bound = items.length * bound + bound := by
      rw [List.length_cons, Nat.succ_mul]
    have hsplit : fuel = l.length + (fuel - l.length) := by omega
    obtain ⟨path, hpath⟩ := climbLinks_climb h hl item.2 (fuel - l.length) items result
    rw [hsplit, show item = (item.1, item.2) from rfl, hpath]
    refine ih _ _ (fun i hi => hitems i (List.mem_cons_of_mem _ hi)) ?_
    omega

theorem pathsOf_total {fs : Filesystem} (h : Linked fs) (id : InodeId) :
    ∃ paths, fs.pathsOf id = some paths := by
  unfold pathsOf
  by_cases hid : id = fs.root
  · rw [if_pos hid]
    exact ⟨_, rfl⟩
  · rw [if_neg hid, climbFuel, Nat.add_comm, climbLinks, if_neg hid]
    dsimp only
    have hall : ∃ paths, fs.climbLinks ((fs.linksOf id).size * fs.inodes.size)
        (((fs.linksOf id).toList.map fun link => (link.1, joinSuffix link.2 "")).reverse ++ [])
        [] = some paths := by
      refine climbLinks_all h fs.inodes.size _ _ _ ?_ ?_
      · intro item hitem
        rw [List.append_nil, List.mem_reverse, List.mem_map] at hitem
        obtain ⟨⟨p, name⟩, hlink, rfl⟩ := hitem
        obtain ⟨e, he, rfl⟩ := h.mem_linksOf.mp (Std.ExtTreeSet.mem_toList.mp hlink)
        obtain ⟨d, hd, hdir, hpos, _⟩ := h.parent_linked he
        obtain ⟨l, hl⟩ := h.climbs hd hdir hpos
        exact ⟨l, hl, h.climb_length hl⟩
      · rw [List.append_nil, List.length_reverse, List.length_map, Std.ExtTreeSet.length_toList]
    obtain ⟨paths, hpaths⟩ := hall
    rw [hpaths]
    exact ⟨_, rfl⟩

/-! ## The queue -/

/-- The queue after one more record. -/
def push (fs : Filesystem) (change : Change) : List Change :=
  if !fs.recordChanges then fs.changes
  else if fs.changes.head?.any (·.kind = .rescan) then fs.changes
  else if maxChanges ≤ fs.changes.length then [rescanRecord change.source]
  else fs.changes ++ [change]

def pushed (fs : Filesystem) (change : Change) : Filesystem :=
  { fs with changes := fs.push change }

/-- A full queue collapses to one record, which stays alone; without tracking there is
no queue. -/
structure Queued (fs : Filesystem) : Prop where
  length_le : fs.changes.length ≤ maxChanges
  rescan_alone : ∀ c ∈ fs.changes, c.kind = .rescan → fs.changes = [c] ∧ c.inode = none
  untracked : fs.recordChanges = false → fs.changes = []

/-- A record of this kind for this inode was emitted, and nothing else happened. -/
def Emits (kind : ChangeKind) (inode : Option InodeId) (fs fs' : Filesystem) : Prop :=
  ∃ change changes, change.kind = kind ∧ change.inode = inode ∧
    change.source = fs.mutationSource ∧ fs' = { fs with changes := changes } ∧
    (Queued fs → changes = fs.push change)

/-- The same, with the path of the record. -/
def EmitsPath (kind : ChangeKind) (inode : Option InodeId) (path : String)
    (fs fs' : Filesystem) : Prop :=
  ∃ change changes, change.kind = kind ∧ change.inode = inode ∧ change.path = path ∧
    change.source = fs.mutationSource ∧ fs' = { fs with changes := changes } ∧
    (Queued fs → changes = fs.push change)

theorem EmitsPath.emits {kind : ChangeKind} {inode : Option InodeId} {path : String}
    {fs fs' : Filesystem} (h : EmitsPath kind inode path fs fs') : Emits kind inode fs fs' := by
  obtain ⟨change, changes, hkind, hinode, -, hrest⟩ := h
  exact ⟨change, changes, hkind, hinode, hrest⟩

/-- The paths that `emit` stores. -/
def emittedPaths (fs : Filesystem) : Option InodeId → List String
  | none => []
  | some id => (fs.pathsOf id).getD []

def emittedChange (fs : Filesystem) (kind : ChangeKind) (inode : Option InodeId)
    (path : String) (oldPath : Option String) : Change where
  kind := kind
  inode := inode
  path := trimSlashes path
  oldPath := oldPath.map trimSlashes
  paths := recordPaths (fs.emittedPaths inode) (trimSlashes path)
  source := fs.mutationSource

theorem emit_eq {fs : Filesystem} (h : Linked fs) (kind : ChangeKind)
    (inode : Option InodeId) (path : String) (oldPath : Option String) :
    emit kind inode path oldPath fs.mutationSource fs =
      (.ok (), { fs with changes := fs.push (fs.emittedChange kind inode path oldPath) }) := by
  have hsame : ∀ changes, fs.push (fs.emittedChange kind inode path oldPath) = changes →
      changes = fs.changes → ((.ok (), fs) : Outcome FilesystemError Unit × Filesystem) =
      (.ok (), { fs with changes := fs.push (fs.emittedChange kind inode path oldPath) }) := by
    rintro changes hpush rfl
    rw [hpush]
  unfold emit
  rw [Op.bind_ok (Op.get_apply fs)]
  by_cases hrec : (!fs.recordChanges) = true
  · rw [if_pos hrec]
    exact hsame _ (by rw [push, if_pos hrec]) rfl
  rw [if_neg hrec]
  by_cases hhead : fs.changes.head?.any (·.kind = .rescan) = true
  · rw [if_pos hhead]
    exact hsame _ (by rw [push, if_neg hrec, if_pos hhead]) rfl
  rw [if_neg hhead]
  by_cases hfull : maxChanges ≤ fs.changes.length
  · rw [if_pos hfull, push, if_neg hrec, if_neg hhead, if_pos hfull]
    rfl
  rw [if_neg hfull, push, if_neg hrec, if_neg hhead, if_neg hfull]
  cases inode with
  | none => rfl
  | some id =>
    obtain ⟨paths, hpaths⟩ := pathsOf_total h id
    have hemitted : fs.emittedPaths (some id) = paths := by rw [emittedPaths, hpaths]; rfl
    rw [emittedChange, hemitted]
    dsimp only
    rw [hpaths]
    rfl

theorem emit_yields_path {fs : Filesystem} (h : Linked fs) (kind : ChangeKind)
    (inode : Option InodeId) (path : String) (oldPath : Option String) :
    (emit kind inode path oldPath fs.mutationSource).Yields fs
      fun _ fs' => EmitsPath kind inode (trimSlashes path) fs fs' :=
  ⟨(), _, emit_eq h kind inode path oldPath,
    _, _, rfl, rfl, rfl, rfl, rfl, fun _ => rfl⟩

theorem emit_yields {fs : Filesystem} (h : Linked fs) (kind : ChangeKind)
    (inode : Option InodeId) (path : String) (oldPath : Option String) :
    (emit kind inode path oldPath fs.mutationSource).Yields fs
      fun _ fs' => Emits kind inode fs fs' :=
  (emit_yields_path h kind inode path oldPath).mono fun _ _ he => he.emits

/-- A record just pushed, if any, is at the back; an older one is not touched. -/
theorem fillPath_push {fs : Filesystem} (h : Queued fs) {change : Change} {id : InodeId}
    (hinode : change.inode = some id) :
    fillPath id (fs.push change) =
      fs.push { change with path := change.paths.head?.getD "" } := by
  unfold push
  by_cases hrec : (!fs.recordChanges) = true
  · rw [if_pos hrec, if_pos hrec, h.untracked (by simpa using hrec)]
    rfl
  rw [if_neg hrec, if_neg hrec]
  by_cases hhead : fs.changes.head?.any (·.kind = .rescan) = true
  · rw [if_pos hhead, if_pos hhead]
    obtain ⟨c, hc, hkind⟩ := (Option.any_eq_true _ _).mp hhead
    obtain ⟨halone, hnone⟩ := h.rescan_alone c (List.mem_of_head? hc) (by simpa using hkind)
    rw [halone, fillPath, List.getLast?_singleton]
    simp [hnone]
  rw [if_neg hhead, if_neg hhead]
  by_cases hfull : maxChanges ≤ fs.changes.length
  · rw [if_pos hfull, if_pos hfull]
    rfl
  rw [if_neg hfull, if_neg hfull, fillPath, List.getLast?_concat]
  simp [hinode]

/-- The path that `emitInode` stores. -/
def firstPath (fs : Filesystem) (id : InodeId) : String :=
  (fs.emittedPaths (some id)).head?.getD ""

theorem emitInode_yields_path {fs : Filesystem} (h : Linked fs) (kind : ChangeKind)
    (id : InodeId) : (emitInode kind id fs.mutationSource).Yields fs
      fun _ fs' => EmitsPath kind (some id) (fs.firstPath id) fs fs' := by
  have htrim : trimSlashes "" = "" := rfl
  have hpath : (fs.emittedChange kind (some id) "" none).paths.head?.getD "" =
      fs.firstPath id := by
    rw [emittedChange, htrim, recordPaths, if_neg (fun hne => hne.1 rfl), firstPath]
  refine ⟨(), _, ?_, { fs.emittedChange kind (some id) "" none with
    path := (fs.emittedChange kind (some id) "" none).paths.head?.getD "" }, _, rfl, rfl, hpath,
    rfl, rfl, fun hq => fillPath_push hq rfl⟩
  unfold emitInode
  rw [Op.bind_ok (emit_eq h kind (some id) "" none)]
  rfl

theorem emitInode_yields {fs : Filesystem} (h : Linked fs) (kind : ChangeKind) (id : InodeId) :
    (emitInode kind id fs.mutationSource).Yields fs fun _ fs' => Emits kind (some id) fs fs' :=
  (emitInode_yields_path h kind id).mono fun _ _ he => he.emits

theorem Emits.write {kind : ChangeKind} {inode : Option InodeId} {fs fs' : Filesystem}
    (h : Emits kind inode fs fs') : Write fs fs' := by
  obtain ⟨change, changes, -, -, -, rfl, -⟩ := h
  exact .aside ⟨rfl, rfl, rfl, rfl, rfl, rfl, rfl, rfl, rfl⟩ (Nat.le_refl _) (.of_eq rfl)

/-! ## The checks of a parent and a name -/

theorem checkName_ne_panic (name : String) : checkName name ≠ .panic := by
  unfold checkName
  split <;> [simp; split <;> simp]

theorem inodeOf_ne_panic (fs : Filesystem) (id : InodeId) : fs.inodeOf id ≠ .panic :=
  Outcome.okOr_ne_panic _ _

theorem entryPath_ne_panic {fs : Filesystem} (h : Linked fs) (parent : InodeId) (name : String) :
    fs.entryPath parent name ≠ .panic := by
  obtain ⟨paths, hpaths⟩ := pathsOf_total h parent
  unfold entryPath
  refine Outcome.bind_ne_panic (checkName_ne_panic name) fun _ _ => ?_
  refine Outcome.bind_ne_panic (inodeOf_ne_panic fs parent) fun directory _ => ?_
  rw [hpaths]
  split
  · exact fun hp => by cases hp
  split
  · exact fun hp => by cases hp
  split
  · exact fun hp => by cases hp
  · refine Outcome.bind_ne_panic (fun hp => by cases hp) fun paths _ => ?_
    exact Outcome.bind_ne_panic (Outcome.okOr_ne_panic _ _) fun _ _ hp => by cases hp

/-- A linked directory has exactly one path. -/
theorem pathsOf_directory {fs : Filesystem} (h : Linked fs) {id : InodeId} {d : Inode}
    (hd : fs.inodes[id]? = some d) (hdir : d.kind.isDirectory = true) (hlive : 0 < d.linkCount) :
    ∃ path, fs.pathsOf id = some [path] := by
  unfold pathsOf
  by_cases hid : id = fs.root
  · rw [if_pos hid]
    exact ⟨_, rfl⟩
  rw [if_neg hid]
  obtain ⟨l, hl⟩ := h.climbs hd hdir hlive
  obtain ⟨hone, -⟩ := h.directory_linked hd hdir hid hlive
  have hfuel : fs.climbFuel id = l.length + (fs.climbFuel id - l.length) := by
    have hlen := h.climb_length hl
    rw [climbFuel, ← h.linkCount_eq hd hid, hone]
    omega
  obtain ⟨path, hpath⟩ := climbLinks_climb h hl "" (fs.climbFuel id - l.length) [] []
  refine ⟨path, ?_⟩
  rw [hfuel, hpath, climbLinks]
  rfl

theorem entryPath_of_live {fs : Filesystem} (h : Linked fs) {parent : InodeId} {name : String}
    {d : Inode} (hname : checkName name = .ok ()) (hd : fs.inodes[parent]? = some d)
    (hdir : d.kind.isDirectory = true) (hlive : 0 < d.linkCount) :
    ∃ path, fs.entryPath parent name = .ok path := by
  obtain ⟨path, hpath⟩ := pathsOf_directory h hd hdir hlive
  unfold entryPath
  rw [hname, Outcome.ok_bind, inodeOf_of_get hd, Outcome.ok_bind, if_neg (by simp [hdir]),
    if_neg (Nat.ne_of_gt hlive), hpath]
  split
  · exact ⟨_, rfl⟩
  · exact ⟨_, rfl⟩

/-- What the checks establish. -/
theorem entryPath_eq_ok {fs : Filesystem} {parent : InodeId} {name path : String}
    (h : fs.entryPath parent name = .ok path) :
    checkName name = .ok () ∧ ∃ d, fs.inodes[parent]? = some d ∧ d.kind.isDirectory = true ∧
      0 < d.linkCount := by
  unfold entryPath at h
  obtain ⟨_, hname, h⟩ := Outcome.bind_eq_ok.mp h
  obtain ⟨d, hd, h⟩ := Outcome.bind_eq_ok.mp h
  refine ⟨hname, d, Outcome.okOr_eq_ok.mp hd, ?_⟩
  by_cases hdir : (!d.kind.isDirectory) = true
  · rw [if_pos hdir] at h
    cases h
  rw [if_neg hdir] at h
  by_cases hlive : d.linkCount = 0
  · rw [if_pos hlive] at h
    cases h
  exact ⟨by simpa using hdir, Nat.pos_of_ne_zero hlive⟩

end Riscbox.Filesystem

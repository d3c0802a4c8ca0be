import Riscbox.Filesystem.Call

/-!
# Change notifications over a run

What the consumer of the queue can rely on: the bound, the lone rescan record, the order
and the immutability of the records, and that no change of the tree goes unreported.
-/

namespace Riscbox.Filesystem

/-! ## What a call reports -/

/-- What a view of the tree shows of an inode: neither its access time nor its fids. -/
def shownInode (n : Inode) : Inode :=
  { n with fidRefs := 0, atime := 0, atimeNanoseconds := 0 }

/-- The inodes with a link. -/
def tree (fs : Filesystem) (id : InodeId) : Option Inode :=
  (fs.inodes[id]?.filter fun n => n.linkCount ≠ 0).map shownInode

def SameView (fs fs' : Filesystem) : Prop := fs'.root = fs.root ∧ fs'.tree = fs.tree

/-- A step that neither changes the tree nor touches the queue. -/
structure Quiet (fs fs' : Filesystem) : Prop where
  view : SameView fs fs'
  changes : fs'.changes = fs.changes
  recordChanges : fs'.recordChanges = fs.recordChanges

/-- A kind of change and the inode that its record names. -/
abbrev Subject : Type := ChangeKind × Option InodeId

/-- One write and one record for each subject. -/
inductive Reported : Filesystem → List Subject → Filesystem → Prop
  | quiet {fs fs' : Filesystem} (h : Quiet fs fs') : Reported fs [] fs'
  | next {fs s fs' : Filesystem} {kind : ChangeKind} {inode : Option InodeId}
      {rest : List Subject} (h : Reports kind inode fs s) (more : Reported s rest fs') :
      Reported fs ((kind, inode) :: rest) fs'

def entrySubject (fs : Filesystem) (kind : ChangeKind) (parent : InodeId) (name : String) :
    Subject := (kind, (fs.entry parent name).map (·.inode))

/-- A rename reports what it replaces, then what it moves. -/
def renameSubjects (fs : Filesystem) (oldParent : InodeId) (oldName : String)
    (newParent : InodeId) (newName : String) : List Subject :=
  let moved := fs.entrySubject .rename oldParent oldName
  let replaced := fs.entrySubject .remove newParent newName
  if replaced.2 = moved.2 then []
  else if replaced.2 = none then [moved]
  else [replaced, moved]

/-- The subjects of a successful call. -/
def Call.subjects (fs : Filesystem) : Call → Answer → List Subject
  | .writeFile _ _, .inode id => [(if fs.inodes[id]?.isSome then .write else .create, some id)]
  | .mkdir _, .inode id => [(.create, some id)]
  | .symlink _ _, .inode id => [(.create, some id)]
  | .createFileAt _ _ _ _ _, .inode id => [(.create, some id)]
  | .mkdirAt _ _ _ _ _, .inode id => [(.create, some id)]
  | .symlinkAt _ _ _ _ _, .inode id => [(.create, some id)]
  | .removeAt parent name, _ => [fs.entrySubject .remove parent name]
  | .remove path, _ =>
    match fs.parent path with
    | .ok place => [fs.entrySubject .remove place.1 place.2]
    | _ => []
  | .linkAt _ _ id, _ => [(.create, some id)]
  | .hardLink existing _, _ =>
    match fs.lookup existing with
    | .ok id => [(.create, some id)]
    | _ => []
  | .renameAt oldParent oldName newParent newName, _ =>
    fs.renameSubjects oldParent oldName newParent newName
  | .rename oldPath newPath, _ =>
    match fs.parent oldPath, fs.parent newPath with
    | .ok old, .ok new => fs.renameSubjects old.1 old.2 new.1 new.2
    | _, _ => []
  | .clear, _ =>
    match fs.gatherRemovals fs.inodes.size [fs.root] [] with
    | .ok removals => removals.reverse.map fun r => fs.entrySubject .remove r.1 r.2
    | _ => []
  | .setMetadata id update, _ =>
    if update = Metadata.default then [] else [(.metadata, some id)]
  | .writeInode id _ data _, _ => if data = [] then [] else [(.write, some id)]
  | .updateAttributes id update, _ =>
    if update = AttributeUpdate.default then []
    else [(if update.size.isSome then .write else .metadata, some id)]
  | .reset, _ => [(.reset, none)]
  | _, _ => []

/-- Calls that neither pop, nor reset, nor switch the tracking. -/
def Call.ordinary : Call → Bool
  | .nextChange => false
  | .setChangeTracking _ => false
  | .reset => false
  | _ => true

theorem SameView.refl (fs : Filesystem) : SameView fs fs := ⟨rfl, rfl⟩

theorem Quiet.refl (fs : Filesystem) : Quiet fs fs := ⟨.refl fs, rfl, rfl⟩

theorem Quiet.of_inodes {fs fs' : Filesystem} (hroot : fs'.root = fs.root)
    (hinodes : fs'.inodes = fs.inodes) (hchanges : fs'.changes = fs.changes)
    (hrecord : fs'.recordChanges = fs.recordChanges) : Quiet fs fs' where
  view := ⟨hroot, funext fun id => by rw [tree, tree, hinodes]⟩
  changes := hchanges
  recordChanges := hrecord

/-- Counting fids and reading do not show. -/
theorem tree_setInode {fs : Filesystem} {id : InodeId} {n n' : Inode}
    (hn : fs.inodes[id]? = some n) (hshown : shownInode n' = shownInode n)
    (hcount : n'.linkCount = n.linkCount) : (fs.setInode id n').tree = fs.tree := by
  funext i
  rw [tree, tree, get_setInode]
  by_cases hi : id = i
  · subst hi
    rw [if_pos rfl, hn]
    by_cases h0 : n.linkCount = 0
    · simp [Option.filter, h0, hcount]
    · simp [Option.filter, h0, hcount, hshown]
  · rw [if_neg hi]

theorem Reported.single {fs fs' : Filesystem} {kind : ChangeKind} {inode : Option InodeId}
    (h : Reports kind inode fs fs') : Reported fs [(kind, inode)] fs' :=
  .next h (.quiet (.refl fs'))

theorem Removed.reports_entry {fs t fs' : Filesystem} {parent : InodeId} {name : String}
    {e : DirectoryEntry} (r : Removed fs parent name e t)
    (he : Emits .remove (some e.inode) t fs') :
    Reports .remove (fs.entrySubject .remove parent name).2 fs fs' := by
  rw [entrySubject, r.entry_get]
  exact r.reports he

theorem renameAt_reported {fs : Filesystem} (h : WellFormed fs) (oldParent : InodeId)
    (oldName : String) (newParent : InodeId) (newName : String) :
    (renameAt oldParent oldName newParent newName).Ends fs fun _ fs' =>
      Reported fs (fs.renameSubjects oldParent oldName newParent newName) fs' := by
  refine (renameAt_ends h oldParent oldName newParent newName).mono ?_
  rintro _ fs' ⟨e, hentry, ⟨rfl, e', hentry', hinode⟩ | ⟨s, t, hother, hs, ht, he⟩⟩
  · have hsame : fs'.renameSubjects oldParent oldName newParent newName = [] := by
      simp [renameSubjects, entrySubject, hentry, hentry', hinode]
    rw [hsame]
    exact .quiet (.refl fs')
  · rcases hs with ⟨hnone, rfl⟩ | ⟨e', u, hr, hemit⟩
    · have hsubjects : s.renameSubjects oldParent oldName newParent newName =
          [(.rename, some e.inode)] := by
        simp [renameSubjects, entrySubject, hentry, hnone]
      rw [hsubjects]
      exact .single (ht.reports he)
    · have hne := hother e' hr.entry_get
      have hsubjects : fs.renameSubjects oldParent oldName newParent newName =
          [(.remove, some e'.inode), (.rename, some e.inode)] := by
        simp [renameSubjects, entrySubject, hentry, hr.entry_get, hne]
      rw [hsubjects]
      exact .next (hr.reports hemit) (.single (ht.reports he))

/-- Unlinking one entry after another reports each of them; the entries still to come
are those of the first state. -/
theorem Clears.reported {fs fs' : Filesystem} {removals : List (InodeId × String)}
    (c : Clears fs removals fs') (h : WellFormed fs) (hnd : removals.Nodup) :
    Reported fs (removals.map fun r => fs.entrySubject .remove r.1 r.2) fs' := by
  induction c with
  | done fs => exact .quiet (.refl fs)
  | @next fs t s fs' parent name e rest hr hemit _ ih =>
    have hwf := hemit.write.wellFormed (hr.write.wellFormed h)
    obtain ⟨hnot, hrest⟩ := List.nodup_cons.mp hnd
    have hsame : (rest.map fun r => fs.entrySubject .remove r.1 r.2) =
        rest.map fun r => s.entrySubject .remove r.1 r.2 := by
      refine List.map_congr_left fun r hmem => ?_
      have hentry : s.entry r.1 r.2 = fs.entry r.1 r.2 := by
        rw [hemit.sameTree.entry, hr.entry_eq h.linked, if_neg]
        rintro ⟨h₁, h₂⟩
        exact hnot (by rw [← h₁, ← h₂]; exact hmem)
      rw [entrySubject, entrySubject, hentry]
    rw [List.map_cons, hsame]
    exact .next (hr.reports_entry hemit) (ih hwf hrest)

theorem tree_released {fs : Filesystem} {id : InodeId} {n : Inode}
    (hn : fs.inodes[id]? = some n) : (released fs id n).tree = fs.tree := by
  have hkept : (fs.setInode id { n with fidRefs := n.fidRefs - 1 }).tree = fs.tree :=
    tree_setInode hn rfl rfl
  unfold released
  dsimp only
  split
  next hgone =>
    funext i
    rw [tree, tree, Frees.get_eq]
    by_cases hi : id = i
    · subst hi
      rw [if_pos rfl, hn]
      simp [Option.filter, show n.linkCount = 0 from hgone.2]
    · rw [if_neg hi, get_setInode, if_neg hi]
  · exact hkept

/-- An ordinary call reports each of its subjects once, and nothing else shows. -/
theorem Call.reported {fs : Filesystem} (h : WellFormed fs) (call : Call)
    (hordinary : call.ordinary = true) :
    call.run.Ends fs fun answer fs' => Reported fs (call.subjects fs answer) fs' := by
  cases call with
  | nextChange => cases hordinary
  | setChangeTracking enabled => cases hordinary
  | reset => cases hordinary
  | setTime now => exact Op.Yields.ends ⟨.done, _, rfl, .quiet (.of_inodes rfl rfl rfl rfl)⟩
  | setMutationSource source =>
    exact Op.Yields.ends ⟨.done, _, rfl, .quiet (.of_inodes rfl rfl rfl rfl)⟩
  | allocateSession =>
    refine .map ((allocateSession_ends fs).mono ?_)
    rintro id fs' ⟨-, -, rfl⟩
    exact .quiet (.of_inodes rfl rfl rfl rfl)
  | retainFid id =>
    refine .map ((retainFid_ends fs id).mono ?_)
    rintro _ fs' ⟨n, hn, -, rfl⟩
    exact .quiet ⟨⟨rfl, tree_setInode hn rfl rfl⟩, rfl, rfl⟩
  | releaseFid id =>
    refine .map ((releaseFid_ends h id).mono ?_)
    rintro _ fs' ⟨n, hn, -, rfl⟩
    refine .quiet ⟨⟨?_, tree_released hn⟩, ?_, ?_⟩
    all_goals
      unfold released
      dsimp only
      split <;> rfl
  | tryLock requested =>
    refine .map ((tryLock_ends fs requested).mono ?_)
    rintro granted fs' ⟨-, ⟨-, rfl⟩ | ⟨-, -, rfl⟩⟩
    · exact .quiet (.refl fs')
    · exact .quiet (.of_inodes rfl rfl rfl rfl)
  | unlock inode session process client start length =>
    refine .map ((unlock_ends fs inode session process client start length).mono ?_)
    rintro _ fs' ⟨-, rfl⟩
    exact .quiet (.of_inodes rfl rfl rfl rfl)
  | releaseSessionLocks session =>
    exact Op.Yields.ends ⟨.done, _, rfl, .quiet (.of_inodes rfl rfl rfl rfl)⟩
  | setMetadata id update =>
    refine .map ((setMetadata_ends h id update).mono ?_)
    rintro _ fs' (⟨rfl, rfl⟩ | ⟨hdefault, hr⟩)
    · exact .quiet (.refl fs')
    · rw [Call.subjects, if_neg hdefault]
      exact .single hr
  | mkdir path => exact .map ((mkdir_ends h path).mono fun _ _ ⟨hid, hr⟩ => hid ▸ .single hr)
  | symlink path target =>
    exact .map ((symlink_ends h path target).mono fun _ _ ⟨hid, hr⟩ => hid ▸ .single hr)
  | writeFile path bytes =>
    refine .map ((writeFile_ends h path bytes).mono ?_)
    rintro id fs' (⟨hstored, hr⟩ | ⟨rfl, hr⟩)
    · rw [Call.subjects, if_pos hstored]
      exact .single hr
    · rw [Call.subjects, h.linked.fresh]
      exact .single hr
  | remove path =>
    refine .map (Op.ends_reading (parent_ne_panic fs path) fun place hplace => ?_)
    refine (removeAt_ends h place.1 place.2).mono ?_
    rintro _ fs' ⟨e, t, hr, he⟩
    rw [Call.subjects, hplace]
    exact .single (hr.reports_entry he)
  | removeAt parent name =>
    refine .map ((removeAt_ends h parent name).mono ?_)
    rintro _ fs' ⟨e, t, hr, he⟩
    exact .single (hr.reports_entry he)
  | hardLink existing newPath =>
    refine .map (Op.ends_reading (lookup_ne_panic fs existing) fun id hid => ?_)
    refine Op.ends_reading (parent_ne_panic fs newPath) fun place _ => ?_
    refine (linkAt_ends h place.1 place.2 id).mono ?_
    rintro _ fs' ⟨d, d', n, n', c, he⟩
    rw [Call.subjects, hid]
    exact .single ⟨_, .link c, rfl, rfl, rfl, he⟩
  | linkAt parent name id =>
    refine .map ((linkAt_ends h parent name id).mono ?_)
    rintro _ fs' ⟨d, d', n, n', c, he⟩
    exact .single ⟨_, .link c, rfl, rfl, rfl, he⟩
  | rename oldPath newPath =>
    refine .map (Op.ends_reading (parent_ne_panic fs oldPath) fun old hold => ?_)
    refine Op.ends_reading (parent_ne_panic fs newPath) fun new hnew => ?_
    refine (renameAt_reported h old.1 old.2 new.1 new.2).mono fun _ fs' hr => ?_
    rw [Call.subjects, hold, hnew]
    exact hr
  | renameAt oldParent oldName newParent newName =>
    exact .map (renameAt_reported h oldParent oldName newParent newName)
  | clear =>
    refine .map ((clear_yields h).ends.mono ?_)
    rintro _ fs' ⟨removals, hok, hp, -, hc⟩
    rw [Call.subjects, hok]
    exact hc.reported h (List.nodup_reverse.mpr hp.nodup)
  | createFileAt parent name mode uid gid =>
    exact .map ((createFileAt_ends h).mono fun _ _ ⟨hid, t, ht, he⟩ =>
      hid ▸ .single (ht.reports he))
  | mkdirAt parent name mode uid gid =>
    exact .map ((mkdirAt_ends h).mono fun _ _ ⟨hid, t, ht, he⟩ => hid ▸ .single (ht.reports he))
  | symlinkAt parent name target uid gid =>
    exact .map ((symlinkAt_ends h).mono fun _ _ ⟨hid, t, ht, he⟩ => hid ▸ .single (ht.reports he))
  | readInode id offset count updateAtime =>
    refine .map ((readInode_ends h id offset count updateAtime).mono ?_)
    rintro bytes fs' ⟨n, body, hn, -, -, rfl | rfl⟩
    · exact .quiet (.refl fs')
    · exact .quiet ⟨⟨rfl, tree_setInode hn rfl rfl⟩, rfl, rfl⟩
  | writeInode id offset data append =>
    refine .map ((writeInode_ends h id offset data append).mono ?_)
    rintro _ fs' (⟨rfl, rfl⟩ | ⟨hdata, hr⟩)
    · exact .quiet (.refl fs')
    · rw [Call.subjects, if_neg hdata]
      exact .single hr
  | updateAttributes id update =>
    refine .map ((updateAttributes_ends h id update).mono ?_)
    rintro _ fs' ⟨⟨rfl, rfl⟩ | ⟨hdefault, hr⟩, -⟩
    · exact .quiet (.refl fs')
    · rw [Call.subjects, if_neg hdefault]
      exact .single hr

theorem entrySubject_fst (fs : Filesystem) (kind : ChangeKind) (parent : InodeId)
    (name : String) : (fs.entrySubject kind parent name).1 = kind := rfl

theorem renameSubjects_ne_rescan (fs : Filesystem) (oldParent : InodeId) (oldName : String)
    (newParent : InodeId) (newName : String) :
    ∀ s ∈ fs.renameSubjects oldParent oldName newParent newName, s.1 ≠ .rescan := by
  unfold renameSubjects
  dsimp only
  split_ifs <;> simp [entrySubject]

theorem Call.subjects_ne_rescan (fs : Filesystem) (call : Call) (answer : Answer) :
    ∀ s ∈ call.subjects fs answer, s.1 ≠ .rescan := by
  fun_cases Call.subjects fs call answer
  all_goals first
    | exact renameSubjects_ne_rescan fs _ _ _ _
    | simp [entrySubject]
  · split <;> simp
  · rintro _ _ _ _ _ rfl _
    simp
  · split <;> simp

/-! ## The queue -/

/-- The records that a step put at the back of the queue; what was there before is
still there unchanged, or all of it is gone. -/
def Appends (fs fs' : Filesystem) (log : List Change) : Prop :=
  ∃ kept, fs'.changes = kept ++ log ∧ (kept = fs.changes ∨ kept = [])

/-- The consumer will learn of the subject, or everything will be rescanned. -/
def Pending (subject : Subject) (fs : Filesystem) : Prop :=
  fs.recordChanges = false ∨ ∃ r ∈ fs.changes, (r.kind, r.inode) = subject ∨ r.kind = .rescan ∨
    r.kind = .reset

theorem Queued.congr {fs fs' : Filesystem} (h : Queued fs) (hchanges : fs'.changes = fs.changes)
    (hrecord : fs'.recordChanges = fs.recordChanges) : Queued fs' where
  length_le := by rw [hchanges]; exact h.length_le
  rescan_alone := by rw [hchanges]; exact h.rescan_alone
  untracked := by rw [hchanges, hrecord]; exact h.untracked

theorem Queued.untouched_of_rescan {fs : Filesystem} (h : Queued fs) {change : Change}
    (hrescan : ∃ r ∈ fs.changes, r.kind = .rescan) : fs.push change = fs.changes := by
  obtain ⟨r, hr, hkind⟩ := hrescan
  obtain ⟨halone, -⟩ := h.rescan_alone r hr hkind
  unfold push
  split
  · rfl
  · rw [if_pos]
    rw [halone]
    simp [hkind]

/-- One pushed record: queued, refused behind a rescan record, or collapsed. -/
theorem push_cases {fs : Filesystem} (change : Change) :
    (fs.recordChanges = false ∧ fs.push change = fs.changes) ∨
      (fs.recordChanges = true ∧
        (((∃ r ∈ fs.changes, r.kind = .rescan) ∧ fs.push change = fs.changes) ∨
          fs.push change = [rescanRecord change.source] ∨
          (fs.changes.length < maxChanges ∧ fs.push change = fs.changes ++ [change] ∧
            ¬fs.changes.head?.any (·.kind = .rescan) = true))) := by
  unfold push
  cases hrecord : fs.recordChanges with
  | false => exact .inl ⟨rfl, rfl⟩
  | true =>
    refine .inr ⟨rfl, ?_⟩
    rw [if_neg (by simp)]
    by_cases hhead : fs.changes.head?.any (·.kind = .rescan) = true
    · rw [if_pos hhead]
      obtain ⟨r, hr, hkind⟩ := (Option.any_eq_true _ _).mp hhead
      exact .inl ⟨⟨r, List.mem_of_head? hr, by simpa using hkind⟩, rfl⟩
    · rw [if_neg hhead]
      by_cases hfull : maxChanges ≤ fs.changes.length
      · rw [if_pos hfull]
        exact .inr (.inl rfl)
      · rw [if_neg hfull]
        exact .inr (.inr ⟨Nat.lt_of_not_le hfull, rfl, hhead⟩)

theorem Queued.push {fs fs' : Filesystem} (h : Queued fs) {change : Change}
    (hkind : change.kind = .rescan → fs.changes = [] ∧ change.inode = none)
    (hchanges : fs'.changes = fs.push change)
    (hrecord : fs'.recordChanges = fs.recordChanges) : Queued fs' := by
  rcases push_cases change with ⟨hoff, hpush⟩ | ⟨hon, ⟨_, hpush⟩ | hpush | ⟨hlt, hpush, hhead⟩⟩
  · exact h.congr (hchanges.trans hpush) hrecord
  · exact h.congr (hchanges.trans hpush) hrecord
  · rw [hpush] at hchanges
    constructor
    case length_le =>
      rw [hchanges]
      exact show 1 ≤ 1024 by omega
    case rescan_alone =>
      intro c hc _
      rw [hchanges, List.mem_singleton] at hc
      rw [hchanges, hc]
      exact ⟨rfl, rfl⟩
    case untracked =>
      intro hoff
      rw [hrecord, hon] at hoff
      cases hoff
  · rw [hpush] at hchanges
    constructor
    case length_le =>
      rw [hchanges, List.length_append, List.length_singleton]
      exact hlt
    case rescan_alone =>
      intro c hc hc'
      rw [hchanges] at hc ⊢
      rcases List.mem_append.mp hc with hc | hc
      · obtain ⟨halone, -⟩ := h.rescan_alone c hc hc'
        rw [halone] at hhead
        simp [hc'] at hhead
      · rw [List.mem_singleton] at hc
        subst hc
        obtain ⟨hnil, hnone⟩ := hkind hc'
        rw [hnil]
        exact ⟨rfl, hnone⟩
    case untracked =>
      intro hoff
      rw [hrecord, hon] at hoff
      cases hoff

theorem Pending.congr {fs fs' : Filesystem} {s : Subject} (h : Pending s fs)
    (hchanges : fs'.changes = fs.changes) (hrecord : fs'.recordChanges = fs.recordChanges) :
    Pending s fs' := by
  unfold Pending
  rw [hchanges, hrecord]
  exact h

/-- What one emission does to the queue. -/
structure Queues (subject : Subject) (fs fs' : Filesystem) : Prop where
  queued : Queued fs'
  recordChanges : fs'.recordChanges = fs.recordChanges
  delivers : Pending subject fs'
  keeps : ∀ s, Pending s fs → Pending s fs'
  log : ∃ log, Appends fs fs' log ∧ ∀ r ∈ log, r.kind = .rescan ∨ (r.kind, r.inode) = subject

theorem Emits.queue {kind : ChangeKind} {inode : Option InodeId} {fs fs' : Filesystem}
    (h : Emits kind inode fs fs') (hq : Queued fs)
    (hrescan : kind = .rescan → fs.changes = [] ∧ inode = none) : Queues (kind, inode) fs fs' := by
  obtain ⟨change, changes, rfl, rfl, -, rfl, hpush⟩ := h
  obtain rfl := hpush hq
  have hqueued : Queued { fs with changes := fs.push change } := hq.push hrescan rfl rfl
  rcases push_cases change with ⟨hoff, heq⟩ | ⟨_, ⟨hhead, heq⟩ | heq | ⟨_, heq, _⟩⟩ <;>
    rw [heq] at hqueued ⊢
  · exact ⟨hqueued, rfl, .inl hoff, fun s hs => hs.congr rfl rfl, [],
      ⟨_, (List.append_nil _).symm, .inl rfl⟩, by simp⟩
  · obtain ⟨r, hr, hkind⟩ := hhead
    exact ⟨hqueued, rfl, .inr ⟨r, hr, .inr (.inl hkind)⟩, fun s hs => hs.congr rfl rfl, [],
      ⟨_, (List.append_nil _).symm, .inl rfl⟩, by simp⟩
  · have hone : ∀ s, Pending s { fs with changes := [rescanRecord change.source] } :=
      fun s => .inr ⟨_, List.mem_singleton_self _, .inr (.inl rfl)⟩
    refine ⟨hqueued, rfl, hone _, fun s _ => hone s, _, ⟨[], rfl, .inr rfl⟩, ?_⟩
    intro r hr
    rw [List.mem_singleton.mp hr]
    exact .inl rfl
  · refine ⟨hqueued, rfl, .inr ⟨change, by simp, .inl rfl⟩, ?_, [change], ⟨_, rfl, .inl rfl⟩, ?_⟩
    · rintro s (hoff | ⟨r, hr, hs⟩)
      · exact .inl hoff
      · exact .inr ⟨r, List.mem_append_left _ hr, hs⟩
    · intro r hr
      rw [List.mem_singleton.mp hr]
      exact .inr rfl

theorem Reports.queue {kind : ChangeKind} {inode : Option InodeId} {fs fs' : Filesystem}
    (h : Reports kind inode fs fs') (hq : Queued fs) (hkind : kind ≠ .rescan) :
    Queues (kind, inode) fs fs' := by
  obtain ⟨t, -, hchanges, hrecord, -, he⟩ := h
  have hs := he.queue (hq.congr hchanges hrecord) (fun hr => absurd hr hkind)
  refine ⟨hs.queued, hs.recordChanges.trans hrecord, hs.delivers,
    fun s hp => hs.keeps s (hp.congr hchanges hrecord), ?_⟩
  obtain ⟨log, ⟨kept, hlog, hkept⟩, hall⟩ := hs.log
  rw [hchanges] at hkept
  exact ⟨log, ⟨kept, hlog, hkept⟩, hall⟩

/-- What a chain of reports does to the queue. -/
structure QueuesAll (subjects : List Subject) (fs fs' : Filesystem) : Prop where
  queued : Queued fs'
  recordChanges : fs'.recordChanges = fs.recordChanges
  delivers : ∀ s ∈ subjects, Pending s fs'
  keeps : ∀ s, Pending s fs → Pending s fs'
  log : ∃ log, Appends fs fs' log ∧ ∀ r ∈ log, r.kind = .rescan ∨ (r.kind, r.inode) ∈ subjects

theorem Reported.queue {fs fs' : Filesystem} {subjects : List Subject}
    (h : Reported fs subjects fs') (hq : Queued fs) (hkinds : ∀ s ∈ subjects, s.1 ≠ .rescan) :
    QueuesAll subjects fs fs' := by
  induction h with
  | quiet h =>
    exact ⟨hq.congr h.changes h.recordChanges, h.recordChanges, by simp,
      fun s hs => hs.congr h.changes h.recordChanges,
      [], ⟨_, by rw [h.changes, List.append_nil], .inl rfl⟩, by simp⟩
  | @next fs s fs' kind inode rest h _ ih =>
    have hone := h.queue hq (hkinds (kind, inode) List.mem_cons_self)
    have hrest := ih hone.queued fun s hs => hkinds s (List.mem_cons_of_mem _ hs)
    obtain ⟨log, ⟨kept, hlog, hkept⟩, hall⟩ := hone.log
    obtain ⟨log', ⟨kept', hlog', hkept'⟩, hall'⟩ := hrest.log
    refine ⟨hrest.queued, hrest.recordChanges.trans hone.recordChanges, ?_,
      fun s hs => hrest.keeps s (hone.keeps s hs), ?_⟩
    · intro s hs
      rcases List.mem_cons.mp hs with rfl | hs
      · exact hrest.keeps _ hone.delivers
      · exact hrest.delivers s hs
    · have hsub : ∀ r ∈ log', r.kind = .rescan ∨ (r.kind, r.inode) ∈ (kind, inode) :: rest := by
        intro r hr
        exact (hall' r hr).imp_right (List.mem_cons_of_mem _)
      rcases hkept' with hkeep | hdrop
      · refine ⟨log ++ log', ⟨kept, ?_, hkept⟩, ?_⟩
        · rw [hlog', hkeep, hlog, List.append_assoc]
        · intro r hr
          rcases List.mem_append.mp hr with hr | hr
          · exact (hall r hr).imp_right fun h => by rw [h]; exact List.mem_cons_self
          · exact hsub r hr
      · exact ⟨log', ⟨[], by rw [hlog', hdrop], .inr rfl⟩, hsub⟩

/-- The records that a call handed to the consumer. -/
def poppedBy (call : Call) (fs : Filesystem) : List Change :=
  match (call.run fs).1 with
  | .ok (.change (some change)) => [change]
  | _ => []

/-- The records that a call put into the queue, each for one of its subjects.  A record
of an earlier call is left alone, handed out, or dropped with the whole queue. -/
def Logs (call : Call) (fs : Filesystem) (log : List Change) : Prop :=
  (∃ kept, (call.after fs).changes = kept ++ log ∧
    (fs.changes = poppedBy call fs ++ kept ∨ (kept = [] ∧ poppedBy call fs = []))) ∧
  ∀ r ∈ log, r.kind = .rescan ∨
    ∃ answer, (call.run fs).1 = .ok answer ∧ (r.kind, r.inode) ∈ call.subjects fs answer

/-- The consumer received a record for the subject, or one that stands for everything. -/
def Received (subject : Subject) (records : List Change) : Prop :=
  ∃ r ∈ records, (r.kind, r.inode) = subject ∨ r.kind = .rescan ∨ r.kind = .reset

/-- What one call does to the queue. -/
structure Call.Queues (call : Call) (fs : Filesystem) : Prop where
  queued : Queued (call.after fs)
  log : ∃ log, Logs call fs log
  keeps : ∀ s, Pending s fs → Pending s (call.after fs) ∨ Received s (poppedBy call fs)
  delivers : ∀ answer, (call.run fs).1 = .ok answer →
    ∀ s ∈ call.subjects fs answer, Pending s (call.after fs)

theorem poppedBy_of_err {call : Call} {fs : Filesystem} {e : FilesystemError}
    (h : (call.run fs).1 = .err e) : poppedBy call fs = [] := by
  rw [poppedBy, h]

theorem poppedBy_nil {call : Call} {fs : Filesystem}
    (h : ∀ change, (call.run fs).1 ≠ .ok (.change change)) : poppedBy call fs = [] := by
  unfold poppedBy
  split
  next change hc => exact absurd hc (h _)
  next => rfl

/-- Only `nextChange` hands out records. -/
theorem Call.answer_ne_change {fs : Filesystem} {call : Call} (hcall : call ≠ .nextChange)
    (change : Option Change) : (call.run fs).1 ≠ .ok (.change change) := by
  intro hrun
  have hmap : ∀ {α : Type} {f : α → Answer} {x : FsOp α}, (∀ a, f a ≠ .change change) →
      ((f <$> x) fs).1 ≠ .ok (.change change) := by
    intro α f x hf hok
    have hb : ((f <$> x) fs) = (.ok (.change change), ((f <$> x) fs).2) := by rw [← hok]
    obtain ⟨a, t, -, ha⟩ := Op.bind_eq_ok hb
    exact hf a (Outcome.ok.inj (congrArg Prod.fst ha))
  cases call with
  | nextChange => exact hcall rfl
  | _ => exact hmap (fun _ => by simp) hrun

theorem Call.queues_of_same {call : Call} {fs : Filesystem} (hq : Queued fs)
    (hpopped : poppedBy call fs = []) (hafter : call.after fs = fs)
    (hsubjects : ∀ answer, (call.run fs).1 = .ok answer → call.subjects fs answer = []) :
    call.Queues fs where
  queued := by rw [hafter]; exact hq
  log := ⟨[], ⟨fs.changes, by rw [hafter, List.append_nil], .inl (by rw [hpopped]; rfl)⟩, by simp⟩
  keeps := fun s hs => .inl (by rw [hafter]; exact hs)
  delivers := by
    intro answer hok s hs
    rw [hsubjects answer hok] at hs
    cases hs

theorem Call.queues_of_ordinary {call : Call} {fs : Filesystem} (h : WellFormed fs)
    (hq : Queued fs) (hordinary : call.ordinary = true) : call.Queues fs := by
  have hends := call.reported h hordinary
  have hpopped : poppedBy call fs = [] := by
    refine poppedBy_nil (Call.answer_ne_change ?_)
    rintro rfl
    cases hordinary
  cases hrun : (call.run fs).1 with
  | panic => exact absurd hrun hends.ne_panic
  | err e =>
    refine Call.queues_of_same hq hpopped (hends.of_err hrun) fun answer hok => ?_
    rw [hrun] at hok
    cases hok
  | ok answer =>
    have hqueue := (hends.of_ok hrun).queue hq (Call.subjects_ne_rescan fs call answer)
    refine ⟨hqueue.queued, ?_, fun s hs => .inl (hqueue.keeps s hs), ?_⟩
    · obtain ⟨log, ⟨kept, hlog, hkept⟩, hall⟩ := hqueue.log
      refine ⟨log, ⟨kept, hlog, ?_⟩, fun r hr => (hall r hr).imp_right fun hs =>
        ⟨answer, hrun, hs⟩⟩
      rw [hpopped]
      rcases hkept with rfl | rfl
      · exact .inl rfl
      · exact .inr ⟨rfl, rfl⟩
    · intro answer' hok s hs
      rw [hrun] at hok
      cases hok
      exact hqueue.delivers s hs

theorem Call.queues_nextChange {fs : Filesystem} (hq : Queued fs) :
    Call.nextChange.Queues fs := by
  have hrun : Call.nextChange.run fs =
      (.ok (.change fs.changes.head?), { fs with changes := fs.changes.tail }) := rfl
  have hafter : Call.nextChange.after fs = { fs with changes := fs.changes.tail } := rfl
  have hpopped : poppedBy .nextChange fs = fs.changes.head?.toList := by
    rw [poppedBy, hrun]
    cases fs.changes.head? <;> rfl
  have hsplit : fs.changes = fs.changes.head?.toList ++ fs.changes.tail := by
    cases fs.changes <;> rfl
  constructor
  case queued =>
    rw [hafter]
    constructor
    case length_le =>
      have := hq.length_le
      show fs.changes.tail.length ≤ _
      rw [List.length_tail]
      omega
    case rescan_alone =>
      intro c hc hkind
      have hc : c ∈ fs.changes.tail := hc
      obtain ⟨halone, _⟩ := hq.rescan_alone c (List.mem_of_mem_tail hc) hkind
      rw [halone] at hc
      cases hc
    case untracked =>
      intro hoff
      show fs.changes.tail = []
      rw [hq.untracked hoff]
      rfl
  case log =>
    exact ⟨[], ⟨fs.changes.tail, by rw [hafter, List.append_nil], .inl (by rw [hpopped, ← hsplit])⟩,
      by simp⟩
  case keeps =>
    rintro s (hoff | ⟨r, hr, hs⟩)
    · exact .inl (.inl hoff)
    · rw [hsplit] at hr
      rcases List.mem_append.mp hr with hr | hr
      · exact .inr ⟨r, by rw [hpopped]; exact hr, hs⟩
      · exact .inl (.inr ⟨r, hr, hs⟩)
  case delivers =>
    intro answer _ s hs
    cases hs

/-- Switching the tracking drops the queue; switching it on leaves a rescan record. -/
theorem Call.queues_setChangeTracking {fs : Filesystem} (h : WellFormed fs) (hq : Queued fs)
    (enabled : Bool) : (Call.setChangeTracking enabled).Queues fs := by
  have hpopped : poppedBy (.setChangeTracking enabled) fs = [] :=
    poppedBy_nil (Call.answer_ne_change (by simp))
  have hsubjects : ∀ answer, (Call.setChangeTracking enabled).subjects fs answer = [] :=
    fun _ => rfl
  obtain ⟨_, fs', hrun, hpost⟩ := setChangeTracking_yields h enabled
  have hafter : (Call.setChangeTracking enabled).after fs = fs' :=
    congrArg Prod.snd (Op.bind_ok hrun)
  rcases hpost with ⟨-, rfl⟩ | ⟨-, ⟨rfl, rfl⟩ | ⟨rfl, he⟩⟩
  · exact Call.queues_of_same hq hpopped hafter fun answer _ => hsubjects answer
  · constructor
    case queued =>
      rw [hafter]
      exact ⟨Nat.zero_le _, by simp, fun _ => rfl⟩
    case log => exact ⟨[], ⟨[], by rw [hafter]; rfl, .inr ⟨rfl, hpopped⟩⟩, by simp⟩
    case keeps => exact fun s _ => .inl (by rw [hafter]; exact .inl rfl)
    case delivers =>
      intro answer _ s hs
      rw [hsubjects] at hs
      cases hs
  · have hempty : Queued { fs with recordChanges := true, changes := [] } :=
      ⟨Nat.zero_le _, by simp, fun _ => rfl⟩
    have hqueue := he.queue hempty fun _ => ⟨rfl, rfl⟩
    have hall : ∀ s, Pending s fs' := by
      intro s
      rcases hqueue.delivers with hoff | ⟨r, hr, hs⟩
      · exact .inl hoff
      · refine .inr ⟨r, hr, .inr ?_⟩
        rcases hs with hs | hs
        · exact .inl (congrArg Prod.fst hs)
        · exact hs
    constructor
    case queued => rw [hafter]; exact hqueue.queued
    case log =>
      obtain ⟨log, ⟨kept, hlog, hkept⟩, hkinds⟩ := hqueue.log
      refine ⟨log, ⟨kept, by rw [hafter, hlog], .inr ⟨?_, hpopped⟩⟩, fun r hr => .inl ?_⟩
      · rcases hkept with rfl | rfl <;> rfl
      · rcases hkinds r hr with hkind | hkind
        · exact hkind
        · exact congrArg Prod.fst hkind
    case keeps => exact fun s _ => .inl (by rw [hafter]; exact hall s)
    case delivers =>
      intro answer _ s hs
      rw [hsubjects] at hs
      cases hs

theorem Call.queues_reset {fs : Filesystem} (hq : Queued fs) : Call.reset.Queues fs := by
  have hends : Call.reset.run.Ends fs fun _ fs' => Emits .reset none (emptied fs) fs' :=
    .map ((reset_ends fs).mono fun _ _ hr => hr.2)
  have hpopped : poppedBy .reset fs = [] := poppedBy_nil (Call.answer_ne_change (by simp))
  cases hrun : (Call.reset.run fs).1 with
  | panic => exact absurd hrun hends.ne_panic
  | err e =>
    refine Call.queues_of_same hq hpopped (hends.of_err hrun) fun answer hok => ?_
    rw [hrun] at hok
    cases hok
  | ok answer =>
    have he := hends.of_ok hrun
    have hempty : Queued (emptied fs) := ⟨Nat.zero_le _, by simp [emptied, new], fun _ => rfl⟩
    have hqueue := he.queue hempty fun hr => by cases hr
    have hall : ∀ s, Pending s (Call.reset.after fs) := by
      intro s
      rcases hqueue.delivers with hoff | ⟨r, hr, hs⟩
      · exact .inl hoff
      · refine .inr ⟨r, hr, .inr ?_⟩
        rcases hs with hs | hs
        · exact .inr (congrArg Prod.fst hs)
        · exact hs
    constructor
    case queued => exact hqueue.queued
    case log =>
      obtain ⟨log, ⟨kept, hlog, hkept⟩, hkinds⟩ := hqueue.log
      refine ⟨log, ⟨kept, hlog, .inr ⟨?_, hpopped⟩⟩, fun r hr => ?_⟩
      · rcases hkept with rfl | rfl <;> rfl
      · refine (hkinds r hr).imp_right fun hs => ⟨answer, hrun, ?_⟩
        rw [hs]
        exact List.mem_singleton_self _
    case keeps => exact fun s _ => .inl (hall s)
    case delivers => exact fun _ _ s _ => hall s

theorem Call.queues {fs : Filesystem} (h : WellFormed fs) (hq : Queued fs) (call : Call) :
    call.Queues fs := by
  cases hordinary : call.ordinary with
  | true => exact Call.queues_of_ordinary h hq hordinary
  | false =>
    cases call with
    | nextChange => exact Call.queues_nextChange hq
    | setChangeTracking enabled => exact Call.queues_setChangeTracking h hq enabled
    | reset => exact Call.queues_reset hq
    | _ => cases hordinary

/-! ## Whole runs -/

/-- The records that a run handed to the consumer, in order. -/
def popped : Filesystem → List Call → List Change
  | _, [] => []
  | fs, call :: calls => poppedBy call fs ++ popped (call.after fs) calls

end Riscbox.Filesystem

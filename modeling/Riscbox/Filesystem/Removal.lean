import Riscbox.Filesystem.Creation

/-!
# Removing entries

One unlink, and the loop of `clear` over all of them.
-/

namespace Riscbox.Filesystem

/-- The state after an unlink, before it is reported. -/
inductive Removed (fs : Filesystem) (parent : InodeId) (name : String) (e : DirectoryEntry) :
    Filesystem → Prop
  | kept {d d' n n' : Inode} (c : Unlinks fs parent d d' name e n n')
      (held : n'.linkCount = 0 → 0 < n'.fidRefs) :
      Removed fs parent name e (unlinked fs parent d' name e.inode n')
  | gone {d d' n n' : Inode} (c : Unlinks fs parent d d' name e n n')
      (linkCount : n'.linkCount = 0) (fidRefs : n'.fidRefs = 0) :
      Removed fs parent name e (freed (unlinked fs parent d' name e.inode n') e.inode n')

theorem Removed.write {fs fs' : Filesystem} {parent : InodeId} {name : String}
    {e : DirectoryEntry} (r : Removed fs parent name e fs') : Write fs fs' := by
  cases r with
  | kept c held => exact .unlink c held
  | gone c hcount hrefs => exact .remove c hcount hrefs

namespace Removed

variable {fs t : Filesystem} {parent : InodeId} {name : String} {e : DirectoryEntry}

theorem entry_get (r : Removed fs parent name e t) : fs.entry parent name = some e := by
  cases r with
  | kept c _ => exact c.entry_get
  | gone c _ _ => exact c.entry_get

theorem entry_eq (r : Removed fs parent name e t) (h : Linked fs) (p : InodeId) (m : String) :
    t.entry p m = if p = parent ∧ m = name then none else fs.entry p m := by
  cases r with
  | kept c _ => exact c.entry_eq p m
  | gone c hcount _ => rw [(c.frees h hcount).entry_eq (c.keeps h), c.entry_eq]

theorem sameExcept (r : Removed fs parent name e t) (h : Linked fs) :
    SameExcept fs t e.inode := by
  cases r with
  | kept c _ => exact c.sameExcept h
  | gone c _ _ =>
    intro j hj
    rw [Frees.get_eq, if_neg (Ne.symm hj)]
    exact c.sameExcept h j hj

theorem ne_parent (r : Removed fs parent name e t) : e.inode ≠ parent := by
  cases r with
  | kept c _ => exact c.ne_parent
  | gone c _ _ => exact c.ne_parent

/-- The removed inode was nobody's parent. -/
theorem no_entries (r : Removed fs parent name e t) (m : String) : fs.entry e.inode m = none := by
  cases r with
  | kept c _ => rw [entry_of_get c.target, c.no_entries]; simp
  | gone c _ _ => rw [entry_of_get c.target, c.no_entries]; simp

/-- The directory keeps its place and its next cookie. -/
theorem directory (r : Removed fs parent name e t) :
    ∃ d d', fs.inodes[parent]? = some d ∧ t.inodes[parent]? = some d' ∧ SamePlace d d' ∧
      d'.kind.nextCookie = d.kind.nextCookie := by
  have hne := r.ne_parent
  cases r with
  | @kept d d' n n' c _ =>
    refine ⟨d, d', c.stored, ?_, c.entries.place, by rw [c.entries.kind]; rfl⟩
    show ((fs.setInode parent d').setInode e.inode n').inodes[parent]? = _
    rw [get_two, if_neg hne, if_pos rfl]
  | @gone d d' n n' c _ _ =>
    refine ⟨d, d', c.stored, ?_, c.entries.place, by rw [c.entries.kind]; rfl⟩
    rw [Frees.get_eq, if_neg hne]
    show ((fs.setInode parent d').setInode e.inode n').inodes[parent]? = _
    rw [get_two, if_neg hne, if_pos rfl]

theorem root_eq (r : Removed fs parent name e t) : t.root = fs.root := by
  cases r <;> rfl

theorem changes_eq (r : Removed fs parent name e t) : t.changes = fs.changes := by
  cases r <;> rfl

theorem recordChanges_eq (r : Removed fs parent name e t) :
    t.recordChanges = fs.recordChanges := by
  cases r <;> rfl

theorem mutationSource_eq (r : Removed fs parent name e t) :
    t.mutationSource = fs.mutationSource := by
  cases r <;> rfl

theorem reports (r : Removed fs parent name e t) {fs' : Filesystem}
    (he : Emits .remove (some e.inode) t fs') : Reports .remove (some e.inode) fs fs' :=
  ⟨t, r.write, r.changes_eq, r.recordChanges_eq, r.mutationSource_eq, he⟩

end Removed

/-- The inode after one of its links is gone. -/
def unlinkedInode (n : Inode) (now : UInt64) : Inode :=
  let n' := { n with linkCount := n.linkCount - 1 }.changed now
  if n'.linkCount = 0 then { n' with parent := none } else n'

theorem unlinks_of_entry {fs : Filesystem} {parent : InodeId} {d n : Inode}
    {name : String} {e : DirectoryEntry} (hd : fs.inodes[parent]? = some d)
    (he : d.kind.entries[name]? = some e) (hn : fs.inodes[e.inode]? = some n)
    (hempty : n.kind.isDirectory = true → n.kind.entries = ∅) :
    Unlinks fs parent d
      (withEntries d (d.kind.entries.erase name) d.kind.nextCookie fs.now)
      name e n (unlinkedInode n fs.now) where
  stored := hd
  entry := he
  entries := withEntries_newEntries (isDirectory_of_entries he)
  target := hn
  empty := hempty
  id := by unfold unlinkedInode; dsimp only; split <;> rfl
  kind := by unfold unlinkedInode; dsimp only; split <;> rfl
  parent := by unfold unlinkedInode; dsimp only; split <;> simp_all [Inode.changed]
  linkCount := by unfold unlinkedInode; dsimp only; split <;> rfl
  fidRefs := by unfold unlinkedInode; dsimp only; split <;> rfl

/-- A forgotten inode had no reverse links left to erase. -/
theorem freed_eq {fs : Filesystem} {id : InodeId} {n : Inode} {size : Nat}
    (hlinks : fs.links[id]? = none) (hsize : size = n.kind.bodyLength) :
    { fs with
      inodes := fs.inodes.erase id
      logicalBytes := fs.logicalBytes - size
      locks := fs.locks.filter (·.inode ≠ id) } = freed fs id n := by
  rw [freed, BTreeMap.erase_of_not_mem hlinks, hsize]

/-- Past its checks an unlink does not fail. -/
theorem removeAt_yields {fs : Filesystem} (h : WellFormed fs) {parent : InodeId}
    {name path : String} {e : DirectoryEntry} {n : Inode}
    (hpath : fs.entryPath parent name = .ok path) (hentry : fs.entry parent name = some e)
    (hn : fs.inodes[e.inode]? = some n)
    (hempty : n.kind.isDirectory = true → n.kind.entries = ∅) :
    (removeAt parent name).Yields fs fun _ fs' => ∃ t, Removed fs parent name e t ∧
      Emits .remove (some e.inode) t fs' := by
  obtain ⟨d, hd, he⟩ := get_of_entry hentry
  have c := unlinks_of_entry hd he hn hempty
  have hl := c.keeps h.linked
  have hsum := h.account.directoryEntries_pos hentry
  have hcount := h.linked.linkCount_pos hentry hn
  unfold removeAt
  refine Op.yields_step (Op.reading_ok hpath) ?_
  refine Op.yields_step (Op.get_apply _) ?_
  refine Op.yields_step (Op.lift_ok (inodeOf_of_get hd) _) ?_
  rw [kind_eq_directory (isDirectory_of_entries he)]
  refine Op.yields_step (Op.lift_ok (by rw [he]; rfl) _) ?_
  refine Op.yields_step (Op.lift_ok (inodeOf_of_get hn) _) ?_
  have hnotFull : ¬(n.kind.isDirectory = true ∧ (!n.kind.entries.isEmpty) = true) := by
    rintro ⟨hdir, hfull⟩
    rw [hempty hdir] at hfull
    simp at hfull
  refine Op.yields_else hnotFull ?_
  refine Op.yields_step (Op.set_apply _ _) ?_
  refine Op.yields_step (Op.checkedSub_apply hsum _) ?_
  refine Op.yields_step (Op.modify_apply _ _) ?_
  refine Op.yields_step (Op.get_apply _) ?_
  have hget : (fs.inodes.insert parent (withEntries d (d.kind.entries.erase name)
      d.kind.nextCookie fs.now))[e.inode]? = some n := by
    rw [BTreeMap.get_insert_of_ne _ _ (Ne.symm c.ne_parent), hn]
  refine Op.yields_step (Op.lift_ok (inodeOf_of_get hget) _) ?_
  refine Op.yields_step (Op.checkedSub_apply hcount _) ?_
  refine Op.yields_step (Op.set_apply _ _) ?_
  by_cases hgone : (unlinkedInode n fs.now).linkCount = 0 ∧
      (unlinkedInode n fs.now).fidRefs = 0
  · refine Op.yields_then hgone ?_
    have hf := c.frees h.linked hgone.1
    have hlinks := hl.links_of_empty (hf.no_links hl)
    have hbody : n.kind.bodyLength ≤ fs.logicalBytes := h.account.body_le_logicalBytes hn
    refine Op.yields_step (Op.get_apply _) ?_
    refine Op.yields_step (Op.set_apply _ _) ?_
    refine Op.yields_step (Op.checkedSub_apply hbody _) ?_
    refine Op.yields_step (Op.modify_apply _ _) ?_
    refine Op.Yields.of_eq (freed_eq hlinks (congrArg _ c.kind.symm)) ?_
    refine (emit_yields (hf.keeps hl) .remove (some e.inode) path none).mono fun _ fs' hemit => ?_
    exact ⟨_, .gone c hgone.1 hgone.2, hemit⟩
  · refine Op.yields_else hgone ?_
    refine (emit_yields hl .remove (some e.inode) path none).mono fun _ fs' hemit => ?_
    refine ⟨_, .kept c ?_, hemit⟩
    intro h0
    rcases Nat.eq_zero_or_pos (unlinkedInode n fs.now).fidRefs with hr | hr
    · exact absurd ⟨h0, hr⟩ hgone
    · exact hr

theorem removeAt_ends {fs : Filesystem} (h : WellFormed fs) (parent : InodeId) (name : String) :
    (removeAt parent name).Ends fs fun _ fs' => ∃ e t, Removed fs parent name e t ∧
      Emits .remove (some e.inode) t fs' := by
  cases hpath : fs.entryPath parent name with
  | err error =>
    refine Op.ends_reading (entryPath_ne_panic h.linked parent name) fun path hok => ?_
    rw [hpath] at hok
    cases hok
  | panic => exact absurd hpath (entryPath_ne_panic h.linked parent name)
  | ok path =>
    obtain ⟨-, d, hd, hdir, -⟩ := entryPath_eq_ok hpath
    have hentry : fs.entry parent name = d.kind.entries[name]? := entry_of_get hd name
    cases he : d.kind.entries[name]? with
    | none =>
      unfold removeAt
      refine Op.ends_step (Op.reading_ok hpath) ?_
      refine Op.ends_get ?_
      refine Op.ends_step (Op.lift_ok (inodeOf_of_get hd) _) ?_
      rw [kind_eq_directory hdir]
      dsimp only
      rw [he]
      exact Op.ends_fail _
    | some e =>
      rw [he] at hentry
      obtain ⟨n, hn⟩ := h.linked.entry_stored hentry
      by_cases hfull : n.kind.isDirectory = true ∧ (!n.kind.entries.isEmpty) = true
      · unfold removeAt
        refine Op.ends_step (Op.reading_ok hpath) ?_
        refine Op.ends_get ?_
        refine Op.ends_step (Op.lift_ok (inodeOf_of_get hd) _) ?_
        rw [kind_eq_directory hdir]
        refine Op.ends_step (Op.lift_ok (by rw [he]; rfl) _) ?_
        refine Op.ends_step (Op.lift_ok (inodeOf_of_get hn) _) ?_
        dsimp only
        rw [if_pos hfull]
        exact Op.ends_fail _
      · have hempty : n.kind.isDirectory = true → n.kind.entries = ∅ := by
          intro hdir
          simpa [hdir] using hfull
        exact ((removeAt_yields h hpath hentry hn hempty).mono fun _ fs' ht => ⟨e, ht⟩).ends

theorem remove_ends {fs : Filesystem} (h : WellFormed fs) (path : String) :
    (remove path).Ends fs fun _ fs' => ∃ id, Reports .remove (some id) fs fs' := by
  refine Op.ends_reading (parent_ne_panic fs path) fun place _ => ?_
  exact (removeAt_ends h place.1 place.2).mono fun _ fs' ⟨e, t, hr, he⟩ =>
    ⟨e.inode, hr.reports he⟩

end Riscbox.Filesystem

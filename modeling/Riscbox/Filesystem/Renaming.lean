import Riscbox.Filesystem.Removal

/-!
# Links and renames

A rename may first unlink what it replaces.  Nothing can fail from there on.
-/

namespace Riscbox.Filesystem

/-! ## One more link -/

theorem linkAt_records {fs : Filesystem} (h : WellFormed fs) (parent : InodeId) (name : String)
    (id : InodeId) :
    (linkAt parent name id).Ends fs fun _ fs' => ∃ path d d' n n',
      fs.entryPath parent name = .ok path ∧ Links fs parent d d' name id n n' ∧
      EmitsPath .create (some id) (trimSlashes path) (linked fs parent d' name id n') fs' := by
  unfold linkAt
  refine Op.ends_reading (entryPath_ne_panic h.linked parent name) fun path hpath => ?_
  obtain ⟨hname, d, hd, hdir, hpos⟩ := entryPath_eq_ok hpath
  refine Op.ends_get ?_
  refine Op.ends_lift (inodeOf_ne_panic fs id) fun n hn => ?_
  have hn := get_of_inodeOf hn
  by_cases hleaf : n.kind.isDirectory = true
  · rw [if_pos hleaf]
    exact Op.ends_fail _
  rw [if_neg hleaf]
  have hleaf : n.kind.isDirectory = false := by simpa using hleaf
  refine Op.ends_lift (Outcome.okOr_ne_panic _ _) fun nextLinks hlinks => ?_
  obtain ⟨hlinks_le, rfl⟩ := checkedAdd_eq_some.mp (Outcome.okOr_eq_ok.mp hlinks)
  refine Op.ends_step (Op.lift_ok (inodeOf_of_get hd) _) ?_
  cases hdkind : d.kind with
  | file body => exact Op.ends_fail _
  | symlink target => exact Op.ends_fail _
  | directory entries nextCookie =>
    have hentries : d.kind.entries = entries := by rw [hdkind]; rfl
    have hcookie : d.kind.nextCookie = nextCookie := by rw [hdkind]; rfl
    dsimp only
    by_cases hvacant : entries[name]?.isSome = true
    · rw [if_pos hvacant]
      exact Op.ends_fail _
    rw [if_neg hvacant]
    by_cases hcapacity : fs.limits.maxDirectoryEntries ≤ fs.directoryEntries
    · rw [if_pos hcapacity]
      exact Op.ends_fail _
    rw [if_neg hcapacity]
    refine Op.ends_lift (Outcome.okOr_ne_panic _ _) fun following hf => ?_
    obtain ⟨hfollowing, rfl⟩ := checkedAdd_eq_some.mp (Outcome.okOr_eq_ok.mp hf)
    have c : Links fs parent d
        (withEntries d (entries.insert name { inode := id, cookie := nextCookie })
          (nextCookie + 1) fs.now) name id n
        ({ n with linkCount := n.linkCount + 1 }.changed fs.now) :=
      { stored := hd, directory := hdir, live := hpos, valid := hname
        vacant := by rw [hentries]; simpa using hvacant
        entries := by rw [hentries, hcookie]; exact withEntries_newEntries hdir
        cookie := by rw [hcookie]; exact hfollowing
        target := hn, leaf := hleaf, id := rfl, kind := rfl, parent := rfl, linkCount := rfl
        linkCount_le := hlinks_le, fidRefs := rfl
        directoryEntries := Nat.lt_of_not_le hcapacity }
    refine Op.Yields.ends ?_
    refine Op.yields_step (Op.set_apply _ _) ?_
    refine Op.yields_step (Op.get_apply _) ?_
    have hget : (fs.inodes.insert parent
        (withEntries d (entries.insert name { inode := id, cookie := nextCookie })
          (nextCookie + 1) fs.now))[id]? = some n := by
      rw [BTreeMap.get_insert_of_ne _ _ (Ne.symm c.ne_parent), hn]
    refine Op.yields_step (Op.lift_ok (inodeOf_of_get hget) _) ?_
    refine Op.yields_step (Op.set_apply _ _) ?_
    refine (emit_yields_path (c.keeps h.linked) .create (some id) path none).mono
      fun _ fs' he => ?_
    exact ⟨path, d, _, n, _, hpath, c, he⟩

theorem linkAt_ends {fs : Filesystem} (h : WellFormed fs) (parent : InodeId) (name : String)
    (id : InodeId) :
    (linkAt parent name id).Ends fs fun _ fs' => ∃ d d' n n', Links fs parent d d' name id n n' ∧
      Emits .create (some id) (linked fs parent d' name id n') fs' :=
  (linkAt_records h parent name id).mono
    fun _ _ ⟨_, d, d', n, n', _, c, he⟩ => ⟨d, d', n, n', c, he.emits⟩

theorem hardLink_ends {fs : Filesystem} (h : WellFormed fs) (existing newPath : String) :
    (hardLink existing newPath).Ends fs fun _ fs' => ∃ id, Reports .create (some id) fs fs' := by
  refine Op.ends_reading (lookup_ne_panic fs existing) fun id _ => ?_
  refine Op.ends_reading (parent_ne_panic fs newPath) fun place _ => ?_
  refine (linkAt_ends h place.1 place.2 id).mono fun _ fs' ⟨d, d', n, n', c, he⟩ => ?_
  exact ⟨id, _, .link c, rfl, rfl, rfl, he⟩

/-! ## The ancestors of the new parent -/

theorem checkAncestors_climb {fs : Filesystem} (h : Linked fs) {x : InodeId} {l : List InodeId}
    (hl : Climb fs.parentInode fs.root x l) (moving : InodeId) :
    ∀ fuel, l.length ≤ fuel → fs.checkAncestors moving fuel (some x) =
      if moving ∈ l then .err .invalidPath else .ok () := by
  induction hl with
  | root =>
    intro fuel hfuel
    rw [List.length_singleton] at hfuel
    obtain ⟨fuel, rfl⟩ := Nat.exists_eq_succ_of_ne_zero (Nat.ne_of_gt hfuel)
    rw [checkAncestors, h.root_parent, checkAncestors]
    simp [eq_comm]
  | @up x p l hx hp _ ih =>
    intro fuel hfuel
    rw [List.length_cons] at hfuel
    obtain ⟨fuel, rfl⟩ := Nat.exists_eq_succ_of_ne_zero (show fuel ≠ 0 by omega)
    rw [checkAncestors, hp, ih fuel (by omega)]
    by_cases hm : x = moving
    · simp [hm]
    · simp [hm, Ne.symm hm]

/-! ## The move -/

/-- The state after an entry changed its place, before it is reported. -/
def Moved (fs : Filesystem) (oldParent : InodeId) (oldName : String) (newParent : InodeId)
    (newName : String) (e : DirectoryEntry) (fs' : Filesystem) : Prop :=
  ∃ d d₁ d' d₂ cookie nextCookie n n',
    Moves fs oldParent d d₁ oldName newParent d' d₂ newName e cookie nextCookie n n' ∧
      fs' = moved fs oldParent d₁ oldName newParent d₂ newName e.inode n'

/-- The inode of the moved entry. -/
def movedInode (n : Inode) (newParent : InodeId) (now : UInt64) : Inode :=
  (if n.kind.isDirectory then { n with parent := some newParent } else n).changed now

/-- The directory that receives the entry, after the old one is written. -/
theorem receiver_get {fs : Filesystem} {oldParent newParent : InodeId} {d d' : Inode}
    (entries : Entries) (hd : fs.inodes[oldParent]? = some d) (hd' : fs.inodes[newParent]? = some d') (hdir' : d'.kind.isDirectory = true) :
    ∃ d'', (fs.setInode oldParent
        (withEntries d entries d.kind.nextCookie fs.now)).inodes[newParent]? = some d'' ∧
      d''.kind.isDirectory = true ∧ d''.linkCount = d'.linkCount ∧
      d''.kind.nextCookie = d'.kind.nextCookie := by
  rw [get_setInode]
  by_cases heq : oldParent = newParent
  · subst heq
    rw [hd] at hd'
    cases hd'
    rw [if_pos rfl]
    exact ⟨_, rfl, rfl, rfl, rfl⟩
  · rw [if_neg heq]
    exact ⟨d', hd', hdir', rfl, rfl⟩

theorem moveEntry_yields {fs : Filesystem} (h : Linked fs) {oldParent newParent : InodeId}
    {oldName newName : String} {d d' n : Inode} {e : DirectoryEntry} {cookie : Nat}
    (hd : fs.inodes[oldParent]? = some d) (he : d.kind.entries[oldName]? = some e)
    (hd' : fs.inodes[newParent]? = some d') (hdir' : d'.kind.isDirectory = true)
    (hlive : 0 < d'.linkCount) (hvalid : checkName newName = .ok ())
    (hvacant : fs.entry newParent newName = none)
    (hcookie : cookie = if oldParent = newParent then e.cookie else d'.kind.nextCookie)
    (hroom : oldParent ≠ newParent → d'.kind.nextCookie + 1 ≤ u64Max)
    (hn : fs.inodes[e.inode]? = some n)
    (hacyclic : n.kind.isDirectory = true →
      ∃ l, Climb fs.parentInode fs.root newParent l ∧ e.inode ∉ l) :
    (moveEntry oldParent oldName newParent newName e.inode cookie).Yields fs
      fun _ t => Moved fs oldParent oldName newParent newName e t := by
  have hdir := isDirectory_of_entries he
  obtain ⟨d'', hd'', hdir'', hlive'', hnext⟩ := receiver_get (d.kind.entries.erase oldName) hd
    hd' hdir'
  have c : Moves fs oldParent d (withEntries d (d.kind.entries.erase oldName)
        d.kind.nextCookie fs.now) oldName newParent d''
      (withEntries d'' (d''.kind.entries.insert newName { inode := e.inode, cookie := cookie })
        (if oldParent ≠ newParent then d''.kind.nextCookie + 1 else d''.kind.nextCookie) fs.now)
      newName e cookie
      (if oldParent ≠ newParent then d''.kind.nextCookie + 1 else d''.kind.nextCookie) n
      (movedInode n newParent fs.now) :=
    { stored := hd, entry := he, entries := withEntries_newEntries hdir, stored' := hd''
      directory := hdir'', live := by rw [hlive'']; exact hlive
      valid := hvalid, vacant := hvacant, entries' := withEntries_newEntries hdir''
      cookies := by
        rw [hnext]
        by_cases heq : oldParent = newParent
        · left
          exact ⟨heq, by rw [hcookie, if_pos heq], by simp [heq]⟩
        · right
          exact ⟨heq, by rw [hcookie, if_neg heq], by simp [heq], hroom heq⟩
      target := hn, acyclic := hacyclic
      id := by unfold movedInode; split <;> rfl
      kind := by unfold movedInode; split <;> rfl
      parent := by unfold movedInode; split <;> rfl
      linkCount := by unfold movedInode; split <;> rfl
      fidRefs := by unfold movedInode; split <;> rfl }
  unfold moveEntry
  refine Op.yields_step (Op.get_apply _) ?_
  refine Op.yields_step (Op.lift_ok (inodeOf_of_get hd) _) ?_
  rw [kind_eq_directory hdir]
  refine Op.yields_step (Op.set_apply _ _) ?_
  refine Op.yields_step (Op.get_apply _) ?_
  refine Op.yields_step (Op.lift_ok (inodeOf_of_get hd'') _) ?_
  rw [kind_eq_directory hdir'']
  refine Op.yields_step (Op.set_apply _ _) ?_
  refine Op.yields_step (Op.get_apply _) ?_
  have hget : (((fs.setInode oldParent (withEntries d (d.kind.entries.erase oldName)
      d.kind.nextCookie fs.now)).setInode newParent (withEntries d''
        (d''.kind.entries.insert newName { inode := e.inode, cookie := cookie })
        (if oldParent ≠ newParent then d''.kind.nextCookie + 1 else d''.kind.nextCookie)
        fs.now)).inodes)[e.inode]? = some n := by
    rw [get_two, if_neg (Ne.symm c.ne_newParent), if_neg (Ne.symm (c.ne_oldParent h)), hn]
  refine Op.yields_step (Op.lift_ok (inodeOf_of_get hget) _) ?_
  refine ⟨(), _, Op.set_apply _ _, d, _, d'', _, _, _, n, _, c, rfl⟩

theorem Moved.write {fs t : Filesystem} {oldParent newParent : InodeId} {oldName newName : String}
    {e : DirectoryEntry} (m : Moved fs oldParent oldName newParent newName e t) : Write fs t := by
  obtain ⟨d, d₁, d', d₂, cookie, nextCookie, n, n', c, rfl⟩ := m
  exact .move c

theorem Moved.reports {fs t fs' : Filesystem} {oldParent newParent : InodeId}
    {oldName newName : String} {e : DirectoryEntry}
    (m : Moved fs oldParent oldName newParent newName e t)
    (he : Emits .rename (some e.inode) t fs') : Reports .rename (some e.inode) fs fs' := by
  have w := m.write
  obtain ⟨d, d₁, d', d₂, cookie, nextCookie, n, n', c, rfl⟩ := m
  exact ⟨_, w, rfl, rfl, rfl, he⟩

/-! ## Renames -/

/-- What a rename replaces is gone, if it replaces anything. -/
def Replaced (fs : Filesystem) (parent : InodeId) (name : String) (t : Filesystem) : Prop :=
  (fs.entry parent name = none ∧ t = fs) ∨
    ∃ e u, Removed fs parent name e u ∧ Emits .remove (some e.inode) u t

theorem Emits.sameTree {kind : ChangeKind} {inode : Option InodeId} {fs fs' : Filesystem}
    (h : Emits kind inode fs fs') : SameTree fs fs' := by
  obtain ⟨change, changes, -, -, -, rfl, -⟩ := h
  exact ⟨rfl, rfl, rfl, rfl, rfl, rfl, rfl, rfl, rfl⟩

theorem Emits.stored {kind : ChangeKind} {inode : Option InodeId} {fs fs' : Filesystem}
    (h : Emits kind inode fs fs') {i : InodeId} {n : Inode} (hn : fs.inodes[i]? = some n) :
    fs'.inodes[i]? = some n := by
  rw [h.sameTree.inodes, hn]

/-- A created inode is stored, and no fid names it. -/
theorem Inserts.stored {fs t fs' : Filesystem} {parent : InodeId} {name : String}
    {kind : InodeKind} (h : Inserts fs parent name kind t)
    (he : Emits .create (some fs.nextInode) t fs') :
    ∃ n, fs'.inodes[fs.nextInode]? = some n ∧ n.fidRefs = 0 := by
  obtain ⟨d, d', n', c, -, rfl⟩ := h
  exact ⟨n', he.stored created_get, c.fidRefs⟩

theorem SameTree.entry {fs fs' : Filesystem} (t : SameTree fs fs') (p : InodeId) (name : String) :
    fs'.entry p name = fs.entry p name := by
  rw [Filesystem.entry, Filesystem.entry, t.inodes]

theorem Emits.mutationSource_eq {kind : ChangeKind} {inode : Option InodeId}
    {fs fs' : Filesystem} (h : Emits kind inode fs fs') :
    fs'.mutationSource = fs.mutationSource := by
  obtain ⟨change, changes, -, -, -, rfl, -⟩ := h
  rfl

namespace Replaced

variable {fs t : Filesystem} {parent : InodeId} {name : String}

theorem wellFormed (r : Replaced fs parent name t) (h : WellFormed fs) : WellFormed t := by
  rcases r with ⟨_, rfl⟩ | ⟨e, u, hr, he⟩
  · exact h
  · exact he.write.wellFormed (hr.write.wellFormed h)

theorem vacant (r : Replaced fs parent name t) (h : Linked fs) : t.entry parent name = none := by
  rcases r with ⟨hnone, rfl⟩ | ⟨e, u, hr, he⟩
  · exact hnone
  · rw [he.sameTree.entry, hr.entry_eq h, if_pos ⟨rfl, rfl⟩]

theorem entry_of_ne (r : Replaced fs parent name t) (h : Linked fs) {p : InodeId} {m : String}
    (hne : ¬(p = parent ∧ m = name)) : t.entry p m = fs.entry p m := by
  rcases r with ⟨_, rfl⟩ | ⟨e, u, hr, he⟩
  · rfl
  · rw [he.sameTree.entry, hr.entry_eq h, if_neg hne]

theorem mutationSource_eq (r : Replaced fs parent name t) :
    t.mutationSource = fs.mutationSource := by
  rcases r with ⟨_, rfl⟩ | ⟨e, u, hr, he⟩
  · rfl
  · rw [he.mutationSource_eq, hr.mutationSource_eq]

theorem root_eq (r : Replaced fs parent name t) : t.root = fs.root := by
  rcases r with ⟨_, rfl⟩ | ⟨e, u, hr, he⟩
  · rfl
  · rw [he.sameTree.root, hr.root_eq]

/-- The directory keeps its place and its next cookie. -/
theorem directory (r : Replaced fs parent name t) {d : Inode} (hd : fs.inodes[parent]? = some d) :
    ∃ d', t.inodes[parent]? = some d' ∧ SamePlace d d' ∧
      d'.kind.nextCookie = d.kind.nextCookie := by
  rcases r with ⟨_, rfl⟩ | ⟨e, u, hr, he⟩
  · exact ⟨d, hd, .refl d, rfl⟩
  · obtain ⟨d₀, d', hd₀, hd', hplace, hnext⟩ := hr.directory
    rw [hd] at hd₀
    cases hd₀
    exact ⟨d', by rw [he.sameTree.inodes, hd'], hplace, hnext⟩

/-- An inode under another name keeps its place, and the climbs of the directory stay. -/
theorem stored (r : Replaced fs parent name t) (h : Linked fs) {i : InodeId} {n : Inode}
    (hn : fs.inodes[i]? = some n) (hi : ∀ e, fs.entry parent name = some e → e.inode ≠ i) :
    ∃ n', t.inodes[i]? = some n' ∧ SamePlace n n' := by
  rcases r with ⟨_, rfl⟩ | ⟨e, u, hr, he⟩
  · exact ⟨n, hn, .refl n⟩
  · rcases hr.sameExcept h i (Ne.symm (hi e hr.entry_get)) with ⟨hnone, _⟩ | ⟨m, m', hm, hm', hs, _⟩
    · rw [hn] at hnone
      cases hnone
    · rw [hn] at hm
      cases hm
      exact ⟨m', by rw [he.sameTree.inodes, hm'], hs⟩

theorem climb (r : Replaced fs parent name t) (h : Linked fs) {l : List InodeId}
    (hl : Climb fs.parentInode fs.root parent l) : Climb t.parentInode t.root parent l := by
  rw [r.root_eq]
  rcases r with ⟨_, rfl⟩ | ⟨e, u, hr, he⟩
  · exact hl
  · refine hl.congr fun y hy _ => ?_
    have hne : y ≠ e.inode := by
      rintro rfl
      rcases hl.mem_cases hy with heq | ⟨z, _, hz⟩
      · exact hr.ne_parent heq
      · exact h.not_parent hr.no_entries z hz
    rw [← (hr.sameExcept h).parentInode hne, parentInode, parentInode, he.sameTree.inodes]

end Replaced

theorem checkReplace_ne_panic (moving destination : InodeKind) :
    checkReplace moving destination ≠ .panic := by
  unfold checkReplace
  split
  · split_ifs <;> simp
  all_goals simp

/-- Once the destination is gone a rename does not fail. -/
theorem renameAt_finishes {fs : Filesystem} (h : WellFormed fs) {oldParent newParent : InodeId}
    {oldName newName : String} {e : DirectoryEntry} {d' n : Inode}
    (hentry : fs.entry oldParent oldName = some e) (hd' : fs.inodes[newParent]? = some d')
    (hdir' : d'.kind.isDirectory = true) (hlive' : 0 < d'.linkCount)
    (hname : checkName newName = .ok ()) (hn : fs.inodes[e.inode]? = some n)
    (hother : ∀ e', fs.entry newParent newName = some e' → e'.inode ≠ e.inode)
    (hroom : oldParent ≠ newParent → d'.kind.nextCookie + 1 ≤ u64Max)
    (hacyclic : n.kind.isDirectory = true →
      ∃ l, Climb fs.parentInode fs.root newParent l ∧ e.inode ∉ l)
    (newPath oldPath : String) {s : Filesystem} (hs : Replaced fs newParent newName s) :
    (moveEntry oldParent oldName newParent newName e.inode
      (if oldParent = newParent then e.cookie else d'.kind.nextCookie) >>= fun _ =>
      emit .rename (some e.inode) newPath (some oldPath) fs.mutationSource).Yields s
    fun _ fs' => ∃ t, Moved s oldParent oldName newParent newName e t ∧
      EmitsPath .rename (some e.inode) (trimSlashes newPath) t fs' := by
  have hwf := hs.wellFormed h
  have hentry' : s.entry oldParent oldName = some e := by
    rw [hs.entry_of_ne h.linked, hentry]
    rintro ⟨rfl, rfl⟩
    exact hother e hentry rfl
  obtain ⟨d₀, hd₀, he₀⟩ := get_of_entry hentry'
  obtain ⟨d₁, hd₁, hplace, hnext⟩ := hs.directory hd'
  obtain ⟨n', hn', hplace'⟩ := hs.stored h.linked hn hother
  refine (moveEntry_yields hwf.linked hd₀ he₀ hd₁ (hplace.directory.trans hdir')
    (by rw [hplace.linkCount]; exact hlive') hname (hs.vacant h.linked) (by rw [hnext])
    (by rw [hnext]; exact hroom) hn' ?_).bind ?_
  · intro hdir
    rw [hplace'.directory] at hdir
    obtain ⟨l, hl, hnot⟩ := hacyclic hdir
    exact ⟨l, hs.climb h.linked hl, hnot⟩
  · intro _ t ht
    have hsource : fs.mutationSource = t.mutationSource := by
      obtain ⟨_, _, _, _, _, _, _, _, _, rfl⟩ := ht
      exact hs.mutationSource_eq.symm
    rw [hsource]
    exact (emit_yields_path (ht.write.wellFormed hwf).linked _ _ _ _).mono
      fun _ fs' hemit => ⟨t, ht, hemit⟩

/-- A rename to another name of the same inode does nothing. -/
theorem renameAt_records {fs : Filesystem} (h : WellFormed fs) (oldParent : InodeId)
    (oldName : String) (newParent : InodeId) (newName : String) :
    (renameAt oldParent oldName newParent newName).Ends fs fun _ fs' => ∃ e,
      fs.entry oldParent oldName = some e ∧
      ((fs' = fs ∧ ∃ e', fs.entry newParent newName = some e' ∧ e'.inode = e.inode) ∨
        ∃ path s t, fs.entryPath newParent newName = .ok path ∧
          (∀ e', fs.entry newParent newName = some e' → e'.inode ≠ e.inode) ∧
          Replaced fs newParent newName s ∧ Moved s oldParent oldName newParent newName e t ∧
          EmitsPath .rename (some e.inode) (trimSlashes path) t fs') := by
  unfold renameAt
  refine Op.ends_reading (entryPath_ne_panic h.linked _ _) fun oldPath hold => ?_
  refine Op.ends_reading (entryPath_ne_panic h.linked _ _) fun newPath hnew => ?_
  obtain ⟨-, d, hd, -, -⟩ := entryPath_eq_ok hold
  obtain ⟨hname, d', hd', hdir', hlive'⟩ := entryPath_eq_ok hnew
  refine Op.ends_get ?_
  refine Op.ends_step (Op.lift_ok (inodeOf_of_get hd) _) ?_
  cases hdkind : d.kind with
  | file body => exact Op.ends_fail _
  | symlink target => exact Op.ends_fail _
  | directory oldEntries oldNext =>
    refine Op.ends_lift (Outcome.okOr_ne_panic _ _) fun e he => ?_
    have he : d.kind.entries[oldName]? = some e := by
      rw [hdkind]
      exact Outcome.okOr_eq_ok.mp he
    have hentry : fs.entry oldParent oldName = some e := by rw [entry_of_get hd, he]
    obtain ⟨n, hn⟩ := h.linked.entry_stored hentry
    refine Op.ends_step (Op.lift_ok (inodeOf_of_get hn) _) ?_
    obtain ⟨l, hl⟩ := h.linked.climbs hd' hdir' hlive'
    have hfuel : l.length ≤ fs.inodes.size + 1 := Nat.le_succ_of_le (h.linked.climb_length hl)
    have hcheck := checkAncestors_climb h.linked hl n.id _ hfuel
    refine Op.ends_lift ?_ fun _ hancestors => ?_
    · split
      · rw [hcheck]
        split_ifs <;> simp
      · simp
    have hacyclic : n.kind.isDirectory = true → e.inode ∉ l := by
      intro hdir hmem
      rw [if_pos hdir, hcheck, h.linked.stored_id hn, if_pos hmem] at hancestors
      cases hancestors
    refine Op.ends_step (Op.lift_ok (inodeOf_of_get hd') _) ?_
    rw [kind_eq_directory hdir']
    dsimp only
    have hnewEntry : fs.entry newParent newName = d'.kind.entries[newName]? := entry_of_get hd' _
    rw [← hnewEntry]
    by_cases hsame : (fs.entry newParent newName).map (·.inode) = some e.inode
    · rw [if_pos hsame]
      obtain ⟨e', he', hinode⟩ := Option.map_eq_some_iff.mp hsame
      exact Op.ends_pure ⟨e, hentry, .inl ⟨rfl, e', he', hinode⟩⟩
    rw [if_neg hsame]
    have hother : ∀ e', fs.entry newParent newName = some e' → e'.inode ≠ e.inode := by
      intro e' he' hinode
      exact hsame (by rw [he', Option.map_some, hinode])
    refine Op.ends_lift ?_ fun _ _ => ?_
    · cases fs.entry newParent newName with
      | none => simp
      | some e' =>
        refine Outcome.bind_ne_panic (inodeOf_ne_panic fs _) fun destination _ => ?_
        exact checkReplace_ne_panic _ _
    refine Op.ends_lift ?_ fun _ hroom => ?_
    · split_ifs
      · exact Outcome.bind_ne_panic (Outcome.okOr_ne_panic _ _) fun _ _ => by simp
      · simp
    have hroom : oldParent ≠ newParent → d'.kind.nextCookie + 1 ≤ u64Max := by
      intro hne
      rw [if_pos hne] at hroom
      obtain ⟨_, hnext, _⟩ := Outcome.bind_eq_ok.mp hroom
      exact (checkedAdd_eq_some.mp (Outcome.okOr_eq_ok.mp hnext)).1
    have hfinish : ∀ s, Replaced fs newParent newName s → _ := fun s hs =>
      renameAt_finishes h hentry hd' hdir' hlive' hname hn hother hroom
        (fun hdir => ⟨l, hl, hacyclic hdir⟩) newPath oldPath hs
    split
    · refine (removeAt_ends h newParent newName).bind fun _ s hs => ?_
      obtain ⟨e', u, hr, hemit⟩ := hs
      have hs : Replaced fs newParent newName s := .inr ⟨e', u, hr, hemit⟩
      exact (hfinish s hs).mono fun _ fs' ⟨t, ht, he⟩ =>
        ⟨e, hentry, .inr ⟨newPath, s, t, hnew, hother, hs, ht, he⟩⟩
    next hnone =>
      have hs : Replaced fs newParent newName fs := .inl ⟨by simpa using hnone, rfl⟩
      exact ((hfinish fs hs).mono fun _ fs' ⟨t, ht, he⟩ =>
        ⟨e, hentry, .inr ⟨newPath, fs, t, hnew, hother, hs, ht, he⟩⟩).ends

theorem renameAt_ends {fs : Filesystem} (h : WellFormed fs) (oldParent : InodeId)
    (oldName : String) (newParent : InodeId) (newName : String) :
    (renameAt oldParent oldName newParent newName).Ends fs fun _ fs' => ∃ e,
      fs.entry oldParent oldName = some e ∧
      ((fs' = fs ∧ ∃ e', fs.entry newParent newName = some e' ∧ e'.inode = e.inode) ∨
        ∃ s t, (∀ e', fs.entry newParent newName = some e' → e'.inode ≠ e.inode) ∧
          Replaced fs newParent newName s ∧ Moved s oldParent oldName newParent newName e t ∧
          Emits .rename (some e.inode) t fs') := by
  refine (renameAt_records h oldParent oldName newParent newName).mono ?_
  rintro _ fs' ⟨e, hentry, hsame | ⟨path, s, t, -, hother, hs, ht, he⟩⟩
  · exact ⟨e, hentry, .inl hsame⟩
  · exact ⟨e, hentry, .inr ⟨s, t, hother, hs, ht, he.emits⟩⟩

end Riscbox.Filesystem

import Riscbox.Filesystem.Call

/-!
# The effect of clearing

What is left of a namespace after `clear`: the root, and what fids still hold.
-/

namespace Riscbox.Filesystem

/-! ## Unlinking keeps the rest -/

/-- What an unlink leaves of an inode that stays stored. -/
structure SameContents (n n' : Inode) : Prop where
  id : n'.id = n.id
  fidRefs : n'.fidRefs = n.fidRefs
  leaf : n.kind.isDirectory = false → n'.kind = n.kind
  directory : n'.kind.isDirectory = n.kind.isDirectory
  nextCookie : n'.kind.nextCookie = n.kind.nextCookie

namespace SameContents

variable {n n' n'' : Inode}

theorem refl (n : Inode) : SameContents n n := ⟨rfl, rfl, fun _ => rfl, rfl, rfl⟩

theorem trans (h : SameContents n n') (h' : SameContents n' n'') : SameContents n n'' where
  id := h'.id.trans h.id
  fidRefs := h'.fidRefs.trans h.fidRefs
  leaf := by
    intro hleaf
    have hleaf' : n'.kind.isDirectory = false := by rw [h.directory, hleaf]
    rw [h'.leaf hleaf', h.leaf hleaf]
  directory := h'.directory.trans h.directory
  nextCookie := h'.nextCookie.trans h.nextCookie

/-- A directory with other entries. -/
theorem of_entries {entries : Entries} (h : NewEntries n n' entries n.kind.nextCookie)
    (hdir : n.kind.isDirectory = true) : SameContents n n' where
  id := h.place.id
  fidRefs := h.fidRefs
  leaf := fun hleaf => by rw [hdir] at hleaf; cases hleaf
  directory := h.place.directory
  nextCookie := by rw [h.kind]; rfl

end SameContents

/-- Entries were unlinked: an inode is forgotten only without fids, and the others keep
their contents and their locks. -/
structure Pruned (fs fs' : Filesystem) : Prop where
  identity : fs'.identity = fs.identity
  root : fs'.root = fs.root
  nextInode : fs'.nextInode = fs.nextInode
  generation : fs'.generation = fs.generation
  unstored : ∀ i : InodeId, fs.inodes[i]? = none → fs'.inodes[i]? = none
  stored : ∀ (i : InodeId) (n : Inode), fs.inodes[i]? = some n →
    (fs'.inodes[i]? = none ∧ n.fidRefs = 0) ∨
      ∃ n', fs'.inodes[i]? = some n' ∧ SameContents n n'
  locks : ∀ i : InodeId, fs'.inodes[i]? ≠ none →
    fs'.locks.filter (·.inode = i) = fs.locks.filter (·.inode = i)

namespace Pruned

variable {fs fs' fs'' : Filesystem}

theorem refl (fs : Filesystem) : Pruned fs fs :=
  ⟨rfl, rfl, rfl, rfl, fun _ h => h, fun _ n hn => .inr ⟨n, hn, .refl n⟩, fun _ _ => rfl⟩

theorem trans (h : Pruned fs fs') (h' : Pruned fs' fs'') : Pruned fs fs'' where
  identity := h'.identity.trans h.identity
  root := h'.root.trans h.root
  nextInode := h'.nextInode.trans h.nextInode
  generation := h'.generation.trans h.generation
  unstored := fun i hi => h'.unstored i (h.unstored i hi)
  stored := by
    intro i n hn
    rcases h.stored i n hn with ⟨hgone, hrefs⟩ | ⟨n', hn', hsame⟩
    · exact .inl ⟨h'.unstored i hgone, hrefs⟩
    · rcases h'.stored i n' hn' with ⟨hgone, hrefs⟩ | ⟨n'', hn'', hsame'⟩
      · exact .inl ⟨hgone, by rw [← hsame.fidRefs, hrefs]⟩
      · exact .inr ⟨n'', hn'', hsame.trans hsame'⟩
  locks := by
    intro i hi
    have hstored : fs'.inodes[i]? ≠ none := fun hnone => hi (h'.unstored i hnone)
    rw [h'.locks i hi, h.locks i hstored]

/-- Nothing of the tree and of the locks is written. -/
theorem of_sameTree (t : SameTree fs fs') (hlocks : fs'.locks = fs.locks) : Pruned fs fs' where
  identity := t.identity
  root := t.root
  nextInode := t.nextInode
  generation := t.generation
  unstored := fun i hi => by rw [t.inodes, hi]
  stored := fun i n hn => .inr ⟨n, by rw [t.inodes, hn], .refl n⟩
  locks := fun i _ => by rw [hlocks]

end Pruned

theorem Unlinks.pruned {fs : Filesystem} {parent : InodeId} {d d' n n' : Inode} {name : String}
    {e : DirectoryEntry} (c : Unlinks fs parent d d' name e n n') :
    Pruned fs (unlinked fs parent d' name e.inode n') := by
  have hget : ∀ i : InodeId, (unlinked fs parent d' name e.inode n').inodes[i]? =
      if e.inode = i then some n' else if parent = i then some d' else fs.inodes[i]? :=
    fun i => get_two i
  refine ⟨rfl, rfl, rfl, rfl, ?_, ?_, fun _ _ => rfl⟩
  · intro i hi
    have hne : e.inode ≠ i := fun he => by rw [← he, c.target] at hi; cases hi
    have hnp : parent ≠ i := fun he => by rw [← he, c.stored] at hi; cases hi
    rw [hget, if_neg hne, if_neg hnp, hi]
  · intro i m hm
    right
    rw [hget]
    by_cases hi : e.inode = i
    · subst hi
      rw [c.target] at hm
      cases hm
      rw [if_pos rfl]
      exact ⟨n', rfl, c.id, c.fidRefs, fun _ => c.kind, by rw [c.kind], by rw [c.kind]⟩
    rw [if_neg hi]
    by_cases hp : parent = i
    · subst hp
      rw [c.stored] at hm
      cases hm
      rw [if_pos rfl]
      exact ⟨d', rfl, .of_entries c.entries (isDirectory_of_entries c.entry)⟩
    · rw [if_neg hp]
      exact ⟨m, hm, .refl m⟩

theorem Frees.pruned {fs : Filesystem} {id : InodeId} {n : Inode} (c : Frees fs id n)
    (hrefs : n.fidRefs = 0) : Pruned fs (freed fs id n) := by
  refine ⟨rfl, rfl, rfl, rfl, ?_, ?_, ?_⟩
  · intro i hi
    rw [Frees.get_eq, hi]
    split <;> rfl
  · intro i m hm
    by_cases hi : id = i
    · subst hi
      rw [c.stored] at hm
      cases hm
      exact .inl ⟨by rw [Frees.get_eq, if_pos rfl], hrefs⟩
    · exact .inr ⟨m, by rw [Frees.get_eq, if_neg hi, hm], .refl m⟩
  · intro i hi
    have hne : i ≠ id := by
      intro he
      rw [Frees.get_eq, if_pos he.symm] at hi
      exact hi rfl
    show (fs.locks.filter (·.inode ≠ id)).filter (·.inode = i) = _
    rw [List.filter_filter]
    congr 1
    funext lock
    by_cases hlock : lock.inode = i
    · simp [hlock, hne]
    · simp [hlock]

theorem Removed.pruned {fs t : Filesystem} {parent : InodeId} {name : String}
    {e : DirectoryEntry} (r : Removed fs parent name e t) (h : Linked fs) : Pruned fs t := by
  cases r with
  | kept c _ => exact c.pruned
  | gone c hcount hrefs => exact c.pruned.trans ((c.frees h hcount).pruned hrefs)

theorem Emits.pruned {kind : ChangeKind} {inode : Option InodeId} {fs fs' : Filesystem}
    (h : Emits kind inode fs fs') : Pruned fs fs' := by
  have t := h.sameTree
  obtain ⟨change, changes, -, -, -, rfl, -⟩ := h
  exact .of_sameTree t rfl

namespace Clears

variable {fs fs' : Filesystem} {removals : List (InodeId × String)}

theorem wellFormed (c : Clears fs removals fs') (h : WellFormed fs) : WellFormed fs' :=
  c.writes.wellFormed h

theorem pruned (c : Clears fs removals fs') (h : WellFormed fs) : Pruned fs fs' := by
  induction c with
  | done fs => exact .refl fs
  | next hr he _ ih =>
    have hs := he.write.wellFormed (hr.write.wellFormed h)
    exact (hr.pruned h.linked).trans (he.pruned.trans (ih hs))

/-- Exactly the listed entries are gone. -/
theorem entry_eq (c : Clears fs removals fs') (h : WellFormed fs) (p : InodeId) (m : String) :
    fs'.entry p m = if (p, m) ∈ removals then none else fs.entry p m := by
  induction c with
  | done fs => simp
  | @next fs t s fs' parent name e rest hr he _ ih =>
    have hs := he.write.wellFormed (hr.write.wellFormed h)
    rw [ih hs, he.sameTree.entry, hr.entry_eq h.linked]
    by_cases hrest : (p, m) ∈ rest
    · rw [if_pos hrest, if_pos (List.mem_cons_of_mem _ hrest)]
    rw [if_neg hrest]
    by_cases hthis : p = parent ∧ m = name
    · rw [if_pos hthis, if_pos (by rw [hthis.1, hthis.2]; exact List.mem_cons_self)]
    · rw [if_neg hthis, if_neg]
      intro hmem
      rcases List.mem_cons.mp hmem with heq | hmem
      · cases heq
        exact hthis ⟨rfl, rfl⟩
      · exact hrest hmem

end Clears

/-! ## Every removal finds an empty inode -/

/-- When the turn of a listed entry comes, it names an empty directory or no directory. -/
def RemovesEmpty (fs : Filesystem) (removals : List (InodeId × String)) : Prop :=
  ∀ before parent name after, removals = before ++ (parent, name) :: after →
    ∃ s e n, removeAll before fs = (.ok (), s) ∧ s.entry parent name = some e ∧
      s.inodes[e.inode]? = some n ∧ (n.kind.isDirectory = true → n.kind.entries = ∅)

/-- The end of a list can be unlinked without its beginning. -/
theorem Prunable.suffix {fs : Filesystem} {above removals : List (InodeId × String)}
    (p : Prunable fs (above ++ removals)) : Prunable fs removals where
  nodup := (List.nodup_append.mp p.nodup).2.1
  listed := fun r hr => p.listed r (List.mem_append_right _ hr)
  below := by
    intro before r after e m e' hsplit he he'
    refine p.below (above ++ before) r after e m e' ?_ he he'
    rw [hsplit, List.append_assoc]

theorem Prunable.removesEmpty {fs : Filesystem} {removals : List (InodeId × String)}
    (p : Prunable fs removals) (h : WellFormed fs) : RemovesEmpty fs removals.reverse := by
  intro before parent name after hsplit
  have hlist : removals = after.reverse ++ (parent, name) :: before.reverse := by
    have hrev := congrArg List.reverse hsplit
    rw [List.reverse_reverse] at hrev
    simpa using hrev
  have hprune : Prunable fs before.reverse := by
    have hp : Prunable fs ((after.reverse ++ [(parent, name)]) ++ before.reverse) := by
      rw [List.append_assoc, List.singleton_append, ← hlist]
      exact p
    exact hp.suffix
  obtain ⟨_, s, hrun, c⟩ := removeAll_yields before.reverse h hprune
  rw [List.reverse_reverse] at hrun c
  have hs := c.wellFormed h
  obtain ⟨e, he⟩ := p.listed (parent, name) (by rw [hlist]; simp)
  have hfresh : (parent, name) ∉ before := by
    have hnd := p.nodup
    rw [hlist] at hnd
    have hnd' := (List.nodup_cons.mp (List.nodup_append.mp hnd).2.1).1
    rwa [List.mem_reverse] at hnd'
  have hentry : s.entry parent name = some e := by rw [c.entry_eq h, if_neg hfresh, he]
  obtain ⟨n, hn⟩ := hs.linked.entry_stored hentry
  refine ⟨s, e, n, hrun, hentry, hn, fun _ => BTreeMap.ext fun m => ?_⟩
  have hnone : s.entry e.inode m = none := by
    rw [c.entry_eq h]
    by_cases hm : (e.inode, m) ∈ before
    · rw [if_pos hm]
    rw [if_neg hm]
    cases he' : fs.entry e.inode m with
    | none => rfl
    | some e' =>
      have hmem := p.below after.reverse (parent, name) before.reverse e m e' hlist he he'
      exact absurd (List.mem_reverse.mp hmem) hm
  rw [entry_of_get hn] at hnone
  rw [hnone]
  simp

/-! ## The cleared namespace -/

/-- The root without entries, and the inodes that fids hold, without links. -/
structure Cleared (fs fs' : Filesystem) : Prop where
  root : fs'.root = fs.root
  rootInode : ∃ n n', fs.inodes[fs.root]? = some n ∧ fs'.inodes[fs.root]? = some n' ∧
    n'.id = n.id ∧ n'.parent = n.parent ∧ n'.linkCount = n.linkCount ∧ n'.fidRefs = n.fidRefs ∧
    n'.kind = .directory ∅ n.kind.nextCookie
  directoryEntries : fs'.directoryEntries = 0
  stored : ∀ i : InodeId, fs'.inodes[i]?.isSome ↔
    i = fs.root ∨ ∃ n, fs.inodes[i]? = some n ∧ 0 < n.fidRefs
  detached : ∀ (i : InodeId) (n' : Inode), i ≠ fs.root → fs'.inodes[i]? = some n' →
    n'.linkCount = 0 ∧ n'.parent = none
  contents : ∀ (i : InodeId) (n n' : Inode), fs.inodes[i]? = some n → fs'.inodes[i]? = some n' →
    n.kind.isDirectory = false → n'.kind = n.kind ∧ n'.fidRefs = n.fidRefs
  locks : ∀ i : InodeId, fs'.inodes[i]?.isSome →
    fs'.locks.filter (·.inode = i) = fs.locks.filter (·.inode = i)
  logicalBytes : fs'.logicalBytes = BTreeMap.total (fun _ n => n.kind.bodyLength) fs'.inodes
  nextInode : fs'.nextInode = fs.nextInode
  generation : fs'.generation = fs.generation
  identity : fs'.identity = fs.identity

theorem entries_of_none {fs : Filesystem} (hnone : ∀ p m, fs.entry p m = none) {i : InodeId}
    {n : Inode} (hn : fs.inodes[i]? = some n) : n.kind.entries = ∅ := by
  refine BTreeMap.ext fun m => ?_
  have hm := hnone i m
  rw [entry_of_get hn] at hm
  rw [hm]
  simp

section NoEntries

variable {fs : Filesystem} (h : WellFormed fs) (hnone : ∀ p m, fs.entry p m = none)
include h hnone

theorem WellFormed.directoryEntries_of_none : fs.directoryEntries = 0 := by
  rw [h.account.directoryEntries_eq, BTreeMap.total_congr (g := fun _ _ => 0)]
  · rw [BTreeMap.total, List.map_const', List.sum_replicate, smul_eq_mul, Nat.mul_zero]
  · intro i n hn
    rw [entries_of_none hnone hn]
    rfl

/-- Without entries, an inode other than the root is held by a fid only. -/
theorem WellFormed.detached_of_none {i : InodeId} {n : Inode} (hi : i ≠ fs.root)
    (hn : fs.inodes[i]? = some n) : n.linkCount = 0 ∧ n.parent = none ∧ 0 < n.fidRefs := by
  have hlinks : fs.linksOf i = ∅ := by
    refine Std.ExtTreeSet.eq_empty_iff_forall_not_mem.mpr ?_
    rintro ⟨p, m⟩ hmem
    obtain ⟨e, he, _⟩ := h.linked.mem_linksOf.mp hmem
    rw [hnone] at he
    cases he
  have hcount : n.linkCount = 0 := by
    rw [h.linked.linkCount_eq hn hi, hlinks]
    rfl
  refine ⟨hcount, ?_, h.tree.retained hn hcount⟩
  cases hdir : n.kind.isDirectory with
  | true => exact (h.linked.directory_detached hn hdir hcount).1
  | false => exact h.linked.leaf_parent hn hdir

end NoEntries

theorem Pruned.cleared {fs fs' : Filesystem} (p : Pruned fs fs') (h : WellFormed fs)
    (h' : WellFormed fs') (hnone : ∀ q m, fs'.entry q m = none) : Cleared fs fs' where
  root := p.root
  rootInode := by
    obtain ⟨n, hn, hdir, hone, hpar⟩ := h.linked.root_stored
    obtain ⟨n', hn', hdir', hone', hpar'⟩ := h'.linked.root_stored
    rw [p.root] at hn'
    rcases p.stored fs.root n hn with ⟨hgone, _⟩ | ⟨m, hm, hsame⟩
    · rw [hn'] at hgone
      cases hgone
    · rw [hn'] at hm
      cases hm
      refine ⟨n, n', hn, hn', hsame.id, hpar'.trans hpar.symm, hone'.trans hone.symm,
        hsame.fidRefs, ?_⟩
      rw [kind_eq_directory hdir', entries_of_none hnone hn', hsame.nextCookie]
  directoryEntries := h'.directoryEntries_of_none hnone
  stored := by
    intro i
    constructor
    · intro hi
      obtain ⟨n', hn'⟩ := Option.isSome_iff_exists.mp hi
      by_cases hroot : i = fs.root
      · exact .inl hroot
      right
      obtain ⟨_, _, hrefs⟩ := h'.detached_of_none hnone (by rw [p.root]; exact hroot) hn'
      cases hn : fs.inodes[i]? with
      | none =>
        rw [p.unstored i hn] at hn'
        cases hn'
      | some n =>
        rcases p.stored i n hn with ⟨hgone, _⟩ | ⟨m, hm, hsame⟩
        · rw [hn'] at hgone
          cases hgone
        · rw [hn'] at hm
          cases hm
          exact ⟨n, rfl, by rw [← hsame.fidRefs]; exact hrefs⟩
    · rintro (rfl | ⟨n, hn, hrefs⟩)
      · obtain ⟨n', hn', _⟩ := h'.linked.root_stored
        rw [p.root] at hn'
        rw [hn']
        rfl
      · rcases p.stored i n hn with ⟨_, hzero⟩ | ⟨n', hn', _⟩
        · omega
        · rw [hn']
          rfl
  detached := by
    intro i n' hroot hn'
    obtain ⟨hcount, hpar, _⟩ := h'.detached_of_none hnone (by rw [p.root]; exact hroot) hn'
    exact ⟨hcount, hpar⟩
  contents := by
    intro i n n' hn hn' hleaf
    rcases p.stored i n hn with ⟨hgone, _⟩ | ⟨m, hm, hsame⟩
    · rw [hn'] at hgone
      cases hgone
    · rw [hn'] at hm
      cases hm
      exact ⟨hsame.leaf hleaf, hsame.fidRefs⟩
  locks := by
    intro i hi
    refine p.locks i fun hgone => ?_
    rw [hgone] at hi
    cases hi
  logicalBytes := h'.account.logicalBytes_eq
  nextInode := p.nextInode
  generation := p.generation
  identity := p.identity

/-- There is nothing to list below a root without entries. -/
theorem clear_of_empty {fs : Filesystem} {n : Inode} {nextCookie : Nat}
    (hn : fs.inodes[fs.root]? = some n) (hkind : n.kind = .directory ∅ nextCookie) :
    clear fs = (.ok (), fs) := by
  have hpos := BTreeMap.size_pos_of_some hn
  obtain ⟨fuel, hfuel⟩ := Nat.exists_eq_succ_of_ne_zero (Nat.ne_of_gt hpos)
  have hnil : (∅ : Entries).toList = [] := Std.ExtTreeMap.toList_eq_nil_iff.mpr rfl
  have hgather : fs.gatherRemovals fs.inodes.size [fs.root] [] = .ok [] := by
    rw [hfuel, gatherRemovals, inodeOf_of_get hn, Outcome.ok_bind, hkind]
    dsimp only
    rw [hnil, gatherEntries, Outcome.ok_bind]
    cases fuel <;> rfl
  have hread : (Op.reading fun t : Filesystem => t.gatherRemovals t.inodes.size [t.root] []) fs =
      ((.ok [], fs) : Outcome FilesystemError _ × Filesystem) := by
    rw [Op.reading_apply, hgather]
  exact Op.bind_ok hread

/-- `clear` in a reachable state: it succeeds, leaves the root and what fids hold, removes
no directory before what it contains, and has nothing left to do. -/
theorem runCalls_clear (identity : Nat) (limits : Limits) (now : UInt64) (calls : List Call) :
    ∃ removals fs',
      (runCalls (new identity limits now) calls).gatherRemovals
        (runCalls (new identity limits now) calls).inodes.size
        [(runCalls (new identity limits now) calls).root] [] = .ok removals ∧
      clear (runCalls (new identity limits now) calls) = (.ok (), fs') ∧
      Cleared (runCalls (new identity limits now) calls) fs' ∧
      RemovesEmpty (runCalls (new identity limits now) calls) removals.reverse ∧
      clear fs' = (.ok (), fs') := by
  have h := runCalls_wellFormed identity limits now calls
  obtain ⟨_, fs', hclear, removals, hgather, p, hall, c⟩ := clear_yields h
  have h' := c.wellFormed h
  have hnone : ∀ q m, fs'.entry q m = none := by
    intro q m
    rw [c.entry_eq h]
    by_cases hm : (q, m) ∈ removals.reverse
    · rw [if_pos hm]
    rw [if_neg hm]
    cases he : (runCalls (new identity limits now) calls).entry q m with
    | none => rfl
    | some e => exact absurd (List.mem_reverse.mpr (hall q m e he)) hm
  have hcleared := (c.pruned h).cleared h h' hnone
  obtain ⟨n, n', -, hn', -, -, -, -, hkind⟩ := hcleared.rootInode
  rw [← hcleared.root] at hn'
  exact ⟨removals, fs', hgather, hclear, hcleared, p.removesEmpty h, clear_of_empty hn' hkind⟩

end Riscbox.Filesystem

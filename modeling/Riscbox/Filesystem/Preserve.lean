import Riscbox.Filesystem.Step

/-!
# Every write keeps the tree
-/

namespace Riscbox.Filesystem

theorem entries_of_directory {kind : InodeKind} {entries : Entries} {nextCookie : Nat}
    (h : kind = .directory entries nextCookie) : kind.entries = entries := by
  rw [h]
  rfl

theorem isDirectory_of_eq {kind : InodeKind} {entries : Entries} {nextCookie : Nat}
    (h : kind = .directory entries nextCookie) : kind.isDirectory = true := by
  rw [h]
  rfl

theorem entries_of_leaf {kind : InodeKind} (h : kind.isDirectory = false) :
    kind.entries = ∅ := by
  cases kind with
  | directory entries nextCookie => cases h
  | file body => rfl
  | symlink target => rfl

theorem isDirectory_of_isFile {kind : InodeKind} (h : kind.isFile = true) :
    kind.isDirectory = false := by
  cases kind with
  | directory entries nextCookie => cases h
  | file body => rfl
  | symlink target => rfl

/-- A climb whose nodes keep their parents is a climb of the new state. -/
theorem climbs_of_same {fs fs' : Filesystem} {x i : InodeId} (h : Linked fs)
    (hx : fs.inodes[x]? = none) (hsame : SameExcept fs fs' x)
    (hi : Climbs fs.parentInode fs.root i) : Climbs fs'.parentInode fs.root i := by
  obtain ⟨l, hl⟩ := hi
  refine ⟨l, hl.congr ?_⟩
  intro y hy _
  refine hsame.parentInode ?_
  rintro rfl
  exact h.climb_stored hl y hy hx

/-! ## Writes that move nothing -/

theorem Linked.same {fs fs' : Filesystem} (h : Linked fs) (hroot : fs'.root = fs.root)
    (hnext : fs'.nextInode = fs.nextInode) (hlinks : fs'.links = fs.links)
    (hsame : ∀ x, SameExcept fs fs' x)
    (hentry : ∀ p name, fs'.entry p name = fs.entry p name) : Linked fs' := by
  have hfresh : fs'.inodes[fs.nextInode]? = none := by
    rcases hsame (fs.nextInode + 1) fs.nextInode (Nat.succ_ne_self _).symm with ⟨_, hn⟩ | ⟨m, _, hm, _⟩
    · exact hn
    · rw [h.fresh] at hm
      cases hm
  have hget : ∀ (j : InodeId) (m : Inode), fs'.inodes[j]? = some m → ∃ m₀, fs.inodes[j]? = some m₀ ∧ SamePlace m₀ m := by
    intro j m hm
    obtain ⟨m₀, hm₀, hs, _⟩ := (hsame (j + 1)).get (Nat.succ_ne_self _).symm hm
    exact ⟨m₀, hm₀, hs⟩
  refine h.update (x := fs.nextInode) hroot ?_ (hsame _) ?_ ?_ ?_ ?_ ?_ ?_ ?_
  · obtain ⟨n, hn, _⟩ := h.root_stored
    intro he
    rw [← he, h.fresh] at hn
    cases hn
  · intro j m hm
    obtain ⟨m₀, hm₀, _⟩ := hget j m hm
    rw [hnext]
    exact h.stored_lt hm₀
  · intro j _
    rw [hlinks]
  · rw [hlinks, h.links_of_empty (h.linksOf_of_unstored h.fresh)]
    simp
  · intro i p name
    rw [linksOf, hlinks, ← linksOf, h.mem_linksOf]
    simp only [hentry]
  · intro p name e he
    rw [hentry] at he
    obtain ⟨n, hn⟩ := h.entry_stored he
    refine ⟨?_, h.entry_name he⟩
    rcases hsame (e.inode + 1) e.inode (Nat.succ_ne_self _).symm with ⟨hnone, _⟩ | ⟨_, m', _, hm', _⟩
    · rw [hn] at hnone
      cases hnone
    · exact ⟨m', hm'⟩
  · intro n hn
    rw [hfresh] at hn
    cases hn
  · intro i m hm hdir hpos
    obtain ⟨m₀, hm₀, hs⟩ := hget i m hm
    rw [hs.directory] at hdir
    rw [hs.linkCount] at hpos
    exact climbs_of_same h h.fresh (hsame _) (h.climbs hm₀ hdir hpos)

/-- An inode is replaced by one with the same place and the same entries. -/
theorem Linked.setInode {fs : Filesystem} (h : Linked fs) {i : InodeId} {n n' : Inode}
    (hn : fs.inodes[i]? = some n) (hplace : SamePlace n n')
    (hentries : n'.kind.entries = n.kind.entries) : Linked (fs.setInode i n') := by
  refine h.same rfl rfl rfl ?_ ?_
  · intro x j _
    rw [get_setInode]
    by_cases hij : i = j
    · subst hij
      exact Or.inr ⟨n, n', hn, by rw [if_pos rfl], hplace, fun _ => hentries⟩
    · rw [if_neg hij]
      cases hj : fs.inodes[j]? with
      | none => exact Or.inl ⟨rfl, rfl⟩
      | some m => exact Or.inr ⟨m, m, rfl, rfl, SamePlace.refl m, fun _ => rfl⟩
  · intro p name
    rw [entry_setInode]
    by_cases hip : i = p
    · subst hip
      rw [if_pos rfl, entry_of_get hn, hentries]
    · rw [if_neg hip]

/-- Nothing of the tree is written. -/
theorem Linked.congr {fs fs' : Filesystem} (h : Linked fs) (hinodes : fs'.inodes = fs.inodes)
    (hlinks : fs'.links = fs.links) (hroot : fs'.root = fs.root)
    (hnext : fs'.nextInode = fs.nextInode) : Linked fs' := by
  refine h.same hroot hnext hlinks ?_ ?_
  · intro x j _
    rw [hinodes]
    cases hj : fs.inodes[j]? with
    | none => exact Or.inl ⟨rfl, rfl⟩
    | some m => exact Or.inr ⟨m, m, rfl, rfl, SamePlace.refl m, fun _ => rfl⟩
  · intro p name
    rw [entry, hinodes, ← entry]

/-! ## One inode changes its place -/

section TwoInodes

variable {fs : Filesystem} {parent id : InodeId} {d d' n' : Inode}

theorem get_two (j : InodeId) :
    ((fs.setInode parent d').setInode id n').inodes[j]? =
      if id = j then some n' else if parent = j then some d' else fs.inodes[j]? := by
  rw [get_setInode, get_setInode]

theorem sameExcept_two {fs' : Filesystem}
    (hinodes : fs'.inodes = ((fs.setInode parent d').setInode id n').inodes)
    (hd : fs.inodes[parent]? = some d) (hplace : SamePlace d d')
    (hdet : d.linkCount = 0 → d'.kind.entries = d.kind.entries) : SameExcept fs fs' id := by
  intro j hj
  rw [hinodes, get_two, if_neg (Ne.symm hj)]
  by_cases hp : parent = j
  · subst hp
    exact Or.inr ⟨d, d', hd, by rw [if_pos rfl], hplace, hdet⟩
  · rw [if_neg hp]
    cases hm : fs.inodes[j]? with
    | none => exact Or.inl ⟨rfl, rfl⟩
    | some m => exact Or.inr ⟨m, m, rfl, rfl, SamePlace.refl m, fun _ => rfl⟩

theorem entry_two {fs' : Filesystem}
    (hinodes : fs'.inodes = ((fs.setInode parent d').setInode id n').inodes)
    (hne : id ≠ parent) (hid : ∀ name, n'.kind.entries[name]? = fs.entry id name)
    (p : InodeId) (name : String) :
    fs'.entry p name =
      if p = parent then d'.kind.entries[name]? else fs.entry p name := by
  rw [entry, hinodes, ← entry, entry_setInode, entry_setInode]
  by_cases hip : id = p
  · subst hip
    rw [if_pos rfl, if_neg hne, hid]
  · rw [if_neg hip]
    by_cases hpp : parent = p
    · rw [if_pos hpp, if_pos hpp.symm]
    · rw [if_neg hpp, if_neg (Ne.symm hpp)]

end TwoInodes

theorem entries_unstored {fs : Filesystem} {i : InodeId} (h : fs.inodes[i]? = none)
    (name : String) : fs.entry i name = none := by
  rw [entry, h]
  rfl

/-- Adding an entry to a map, at the level of lookups. -/
theorem entry_insert_eq {fs fs' : Filesystem} {parent : InodeId} {d d' : Inode} {name : String}
    {e : DirectoryEntry} {nextCookie : Nat} (hd : fs.inodes[parent]? = some d)
    (hkind : d'.kind = .directory (d.kind.entries.insert name e) nextCookie)
    (h : ∀ p m, fs'.entry p m = if p = parent then d'.kind.entries[m]? else fs.entry p m)
    (p : InodeId) (m : String) :
    fs'.entry p m = if p = parent ∧ m = name then some e else fs.entry p m := by
  rw [h]
  by_cases hp : p = parent
  · subst hp
    rw [if_pos rfl, entries_of_directory hkind, BTreeMap.get_insert, entry_of_get hd]
    by_cases hm : name = m
    · subst hm
      simp
    · simp [hm, Ne.symm hm]
  · simp [hp]

theorem entry_erase_eq {fs fs' : Filesystem} {parent : InodeId} {d d' : Inode} {name : String}
    {nextCookie : Nat} (hd : fs.inodes[parent]? = some d)
    (hkind : d'.kind = .directory (d.kind.entries.erase name) nextCookie)
    (h : ∀ p m, fs'.entry p m = if p = parent then d'.kind.entries[m]? else fs.entry p m)
    (p : InodeId) (m : String) :
    fs'.entry p m = if p = parent ∧ m = name then none else fs.entry p m := by
  rw [h]
  by_cases hp : p = parent
  · subst hp
    rw [if_pos rfl, entries_of_directory hkind, BTreeMap.get_erase, entry_of_get hd]
    by_cases hm : name = m
    · subst hm
      simp
    · simp [hm, Ne.symm hm]
  · simp [hp]

namespace Creates

variable {fs : Filesystem} {parent : InodeId} {d d' n' : Inode} {name : String}

theorem entry_eq (c : Creates fs parent d d' name n') (h : Linked fs) (p : InodeId) (m : String) :
    (created fs parent d' name n').entry p m =
      if p = parent ∧ m = name then some { inode := fs.nextInode, cookie := d.kind.nextCookie }
      else fs.entry p m := by
  have hne : fs.nextInode ≠ parent := by
    intro he
    have hs := c.stored
    rw [← he, h.fresh] at hs
    cases hs
  refine entry_insert_eq c.stored c.entries.kind (entry_two rfl hne ?_) p m
  intro m
  rw [entries_unstored h.fresh]
  rcases c.empty with hk | hk
  · rw [entries_of_directory hk]
    simp
  · rw [entries_of_leaf hk]
    simp

theorem keeps (c : Creates fs parent d d' name n') (h : Linked fs) :
    Linked (created fs parent d' name n') := by
  have hentry := c.entry_eq h
  have hnone : fs.entry parent name = none := by rw [entry_of_get c.stored, c.vacant]
  have hsame : SameExcept fs (created fs parent d' name n') fs.nextInode :=
    sameExcept_two rfl c.stored c.entries.place (fun h0 => absurd c.live (by omega))
  have hself : (created fs parent d' name n').inodes[fs.nextInode]? = some n' := by
    show ((fs.setInode parent d').setInode fs.nextInode n').inodes[fs.nextInode]? = _
    rw [get_two, if_pos rfl]
  have hempty : fs.linksOf fs.nextInode = ∅ := h.linksOf_of_unstored h.fresh
  have hlinksOf := linksOf_addLink
    (show (created fs parent d' name n').links = fs.addLink fs.nextInode parent name from rfl)
  have hparent : (created fs parent d' name n').parentInode fs.nextInode =
      if n'.kind.isDirectory then some parent else none := by
    rw [parentInode_of_get hself, c.parent]
  have hstored : ∀ (j : InodeId) (m : Inode), (created fs parent d' name n').inodes[j]? = some m → j ≠ fs.nextInode →
      ∃ m₀, fs.inodes[j]? = some m₀ ∧ SamePlace m₀ m := by
    intro j m hm hj
    obtain ⟨m₀, hm₀, hs, _⟩ := hsame.get hj hm
    exact ⟨m₀, hm₀, hs⟩
  have hroot : fs.nextInode ≠ fs.root := by
    obtain ⟨n, hn, _⟩ := h.root_stored
    intro he
    rw [← he, h.fresh] at hn
    cases hn
  have hagree := h.agree.add hnone
    { inode := fs.nextInode, cookie := d.kind.nextCookie }
  refine h.update rfl hroot hsame ?_ (fun j hj => links_addLink_ne rfl hj)
    (links_addLink_self rfl) ?_ ?_ ?_ ?_
  · intro j m hm
    show j < fs.nextInode + 1
    by_cases hj : j = fs.nextInode
    · exact Nat.lt_succ_of_le (Nat.le_of_eq hj)
    · obtain ⟨m₀, hm₀, _⟩ := hstored j m hm hj
      exact Nat.lt_succ_of_lt (h.stored_lt hm₀)
  · intro i p m
    rw [hlinksOf, hentry]
    exact hagree i p m
  · intro p m e he
    rw [hentry] at he
    by_cases hpm : p = parent ∧ m = name
    · rw [if_pos hpm] at he
      cases he
      exact ⟨⟨n', hself⟩, hpm.2 ▸ c.valid⟩
    · rw [if_neg hpm] at he
      obtain ⟨m₀, hm₀⟩ := h.entry_stored he
      refine ⟨?_, h.entry_name he⟩
      have hj : e.inode ≠ fs.nextInode := Nat.ne_of_lt (h.stored_lt hm₀)
      rcases hsame e.inode hj with ⟨hnone', _⟩ | ⟨_, m', _, hm', _⟩
      · rw [hm₀] at hnone'
        cases hnone'
      · exact ⟨m', hm'⟩
  · intro n hn
    rw [hself] at hn
    cases hn
    have hsize : ((created fs parent d' name n').linksOf fs.nextInode).size = 1 := by
      rw [hlinksOf, if_pos rfl, BTreeSet.size_insert_of_not_mem (by rw [hempty]; simp), hempty]
      rfl
    have hmem : (parent, name) ∈ (created fs parent d' name n').linksOf fs.nextInode := by
      rw [hlinksOf, if_pos rfl]
      exact BTreeSet.mem_insert_iff.mpr (Or.inl rfl)
    constructor
    case id => exact c.id
    case linkCount => rw [hsize, c.linkCount]
    case linked =>
      intro hdir _
      refine ⟨c.linkCount, parent, name, ?_, hmem⟩
      rw [c.parent, if_pos hdir]
    case detached =>
      intro _ h0
      rw [c.linkCount] at h0
      omega
    case leaf =>
      intro hleaf
      rw [c.parent, hleaf]
      rfl
  · intro i m hm hdir hpos
    have hparentClimbs := h.climbs c.stored c.directory c.live
    have hup := climbs_of_same h h.fresh hsame hparentClimbs
    by_cases hj : i = fs.nextInode
    · subst hj
      rw [hself] at hm
      cases hm
      exact Climbs.up hroot (by rw [hparent, if_pos hdir]) hup
    · obtain ⟨m₀, hm₀, hs⟩ := hstored i m hm hj
      rw [hs.directory] at hdir
      rw [hs.linkCount] at hpos
      exact climbs_of_same h h.fresh hsame (h.climbs hm₀ hdir hpos)

end Creates

theorem climbs_of_parents {fs fs' : Filesystem} {i : InodeId}
    (heq : ∀ y, fs'.parentInode y = fs.parentInode y) (hi : Climbs fs.parentInode fs.root i) :
    Climbs fs'.parentInode fs.root i :=
  hi.congr fun y _ => heq y

/-- An inode without entries is nobody's parent. -/
theorem Linked.not_parent {fs : Filesystem} (h : Linked fs) {x : InodeId}
    (hx : ∀ name, fs.entry x name = none) (z : InodeId) : fs.parentInode z ≠ some x := by
  intro hz
  obtain ⟨name, e, he, _⟩ := h.entry_of_parent hz
  rw [hx] at he
  cases he

theorem SameExcept.stored {fs fs' : Filesystem} {x j : InodeId} {m : Inode}
    (h : SameExcept fs fs' x) (hj : j ≠ x) (hm : fs.inodes[j]? = some m) :
    ∃ m', fs'.inodes[j]? = some m' := by
  rcases h j hj with ⟨hnone, _⟩ | ⟨_, m', _, hm', _⟩
  · rw [hm] at hnone
    cases hnone
  · exact ⟨m', hm'⟩

namespace Links

variable {fs : Filesystem} {parent id : InodeId} {d d' n n' : Inode} {name : String}

theorem ne_parent (c : Links fs parent d d' name id n n') : id ≠ parent := by
  rintro rfl
  have hs := c.stored
  rw [c.target] at hs
  cases hs
  have hdir := c.directory
  rw [c.leaf] at hdir
  cases hdir

theorem entry_eq (c : Links fs parent d d' name id n n') (p : InodeId) (m : String) :
    (linked fs parent d' name id n').entry p m =
      if p = parent ∧ m = name then some { inode := id, cookie := d.kind.nextCookie }
      else fs.entry p m := by
  refine entry_insert_eq c.stored c.entries.kind (entry_two rfl c.ne_parent ?_) p m
  intro m
  rw [entry_of_get c.target, c.kind]

theorem keeps (c : Links fs parent d d' name id n n') (h : Linked fs) :
    Linked (linked fs parent d' name id n') := by
  have hentry := c.entry_eq
  have hnone : fs.entry parent name = none := by rw [entry_of_get c.stored, c.vacant]
  have hsame : SameExcept fs (linked fs parent d' name id n') id :=
    sameExcept_two rfl c.stored c.entries.place (fun h0 => absurd c.live (by omega))
  have hself : (linked fs parent d' name id n').inodes[id]? = some n' := by
    show ((fs.setInode parent d').setInode id n').inodes[id]? = _
    rw [get_two, if_pos rfl]
  have hlinksOf := linksOf_addLink
    (show (linked fs parent d' name id n').links = fs.addLink id parent name from rfl)
  have hleaf' : n'.kind.isDirectory = false := by rw [c.kind, c.leaf]
  have hroot : id ≠ fs.root := by
    rintro rfl
    obtain ⟨m, hm, hdir, _⟩ := h.root_stored
    rw [c.target] at hm
    cases hm
    rw [c.leaf] at hdir
    cases hdir
  have hagree := h.agree.add hnone { inode := id, cookie := d.kind.nextCookie }
  have hparents : ∀ y, (linked fs parent d' name id n').parentInode y = fs.parentInode y := by
    intro y
    by_cases hy : y = id
    · subst hy
      rw [parentInode_of_get hself, parentInode_of_get c.target, c.parent]
    · exact hsame.parentInode hy
  refine h.update rfl hroot hsame ?_ (fun j hj => links_addLink_ne rfl hj)
    (links_addLink_self rfl) ?_ ?_ ?_ ?_
  · intro j m hm
    show j < fs.nextInode
    by_cases hj : j = id
    · subst hj
      exact h.stored_lt c.target
    · obtain ⟨m₀, hm₀, _⟩ := hsame.get hj hm
      exact h.stored_lt hm₀
  · intro i p m
    rw [hlinksOf, hentry]
    exact hagree i p m
  · intro p m e he
    rw [hentry] at he
    by_cases hpm : p = parent ∧ m = name
    · rw [if_pos hpm] at he
      cases he
      exact ⟨⟨n', hself⟩, hpm.2 ▸ c.valid⟩
    · rw [if_neg hpm] at he
      obtain ⟨m₀, hm₀⟩ := h.entry_stored he
      refine ⟨?_, h.entry_name he⟩
      by_cases hj : e.inode = id
      · exact ⟨n', hj ▸ hself⟩
      · exact hsame.stored hj hm₀
  · intro m hm
    rw [hself] at hm
    cases hm
    constructor
    case id => rw [c.id, h.stored_id c.target]
    case linkCount =>
      have hnot : (parent, name) ∉ fs.linksOf id := by
        rw [h.mem_linksOf, hnone]
        simp
      rw [hlinksOf, if_pos rfl, BTreeSet.size_insert_of_not_mem hnot, c.linkCount,
        h.linkCount_eq c.target hroot]
    case linked =>
      intro hdir
      rw [hleaf'] at hdir
      cases hdir
    case detached =>
      intro hdir
      rw [hleaf'] at hdir
      cases hdir
    case leaf =>
      intro _
      rw [c.parent, h.leaf_parent c.target c.leaf]
  · intro i m hm hdir hpos
    by_cases hi : i = id
    · subst hi
      rw [hself] at hm
      cases hm
      rw [hleaf'] at hdir
      cases hdir
    · obtain ⟨m₀, hm₀, hs, _⟩ := hsame.get hi hm
      rw [hs.directory] at hdir
      rw [hs.linkCount] at hpos
      exact climbs_of_parents hparents (h.climbs hm₀ hdir hpos)

end Links

namespace Unlinks

variable {fs : Filesystem} {parent : InodeId} {d d' n n' : Inode} {name : String}
  {e : DirectoryEntry}

theorem entry_get (c : Unlinks fs parent d d' name e n n') : fs.entry parent name = some e := by
  rw [entry_of_get c.stored, c.entry]

theorem no_entries (c : Unlinks fs parent d d' name e n n') : n.kind.entries = ∅ := by
  cases hdir : n.kind.isDirectory with
  | true => exact c.empty hdir
  | false => exact entries_of_leaf hdir

theorem ne_parent (c : Unlinks fs parent d d' name e n n') : e.inode ≠ parent := by
  intro he
  have hs := c.stored
  rw [← he, c.target] at hs
  cases hs
  have hentry := c.entry
  rw [c.no_entries] at hentry
  simp at hentry

theorem entry_eq (c : Unlinks fs parent d d' name e n n') (p : InodeId) (m : String) :
    (unlinked fs parent d' name e.inode n').entry p m =
      if p = parent ∧ m = name then none else fs.entry p m := by
  refine entry_erase_eq c.stored c.entries.kind (entry_two rfl c.ne_parent ?_) p m
  intro m
  rw [entry_of_get c.target, c.kind]

theorem get_self :
    (unlinked fs parent d' name e.inode n').inodes[e.inode]? = some n' := by
  show ((fs.setInode parent d').setInode e.inode n').inodes[e.inode]? = _
  rw [get_two, if_pos rfl]

theorem sameExcept (c : Unlinks fs parent d d' name e n n') (h : Linked fs) :
    SameExcept fs (unlinked fs parent d' name e.inode n') e.inode := by
  refine sameExcept_two rfl c.stored c.entries.place ?_
  intro h0
  obtain ⟨d₀, hd₀, _, hpos, _⟩ := h.parent_linked c.entry_get
  rw [c.stored] at hd₀
  cases hd₀
  omega

theorem keeps (c : Unlinks fs parent d d' name e n n') (h : Linked fs) :
    Linked (unlinked fs parent d' name e.inode n') := by
  have hentry := c.entry_eq
  have hsame := c.sameExcept h
  have hself : (unlinked fs parent d' name e.inode n').inodes[e.inode]? = some n' := get_self
  have hlinksOf := linksOf_dropLink (show
    (unlinked fs parent d' name e.inode n').links = fs.dropLink e.inode parent name from rfl)
  have hroot := h.entry_ne_root c.entry_get
  have hmem := h.entry_linked c.entry_get
  have hagree := h.agree.remove c.entry_get
  have hsize : n'.linkCount = ((unlinked fs parent d' name e.inode n').linksOf e.inode).size := by
    have hs := BTreeSet.size_erase_of_mem hmem
    rw [hlinksOf, if_pos rfl, c.linkCount, h.linkCount_eq c.target hroot]
    omega
  have hdirZero : n'.kind.isDirectory = true → n'.linkCount = 0 := by
    intro hdir
    rw [c.kind] at hdir
    rw [c.linkCount, (h.directory_entry c.entry_get c.target hdir).1]
  refine h.update rfl hroot hsame ?_ (fun j hj => links_dropLink_ne rfl hj)
    (links_dropLink_self rfl) ?_ ?_ ?_ ?_
  · intro j m hm
    show j < fs.nextInode
    by_cases hj : j = e.inode
    · subst hj
      exact h.stored_lt c.target
    · obtain ⟨m₀, hm₀, _⟩ := hsame.get hj hm
      exact h.stored_lt hm₀
  · intro i p m
    rw [hlinksOf, hentry]
    exact hagree i p m
  · intro p m e' he
    rw [hentry] at he
    by_cases hpm : p = parent ∧ m = name
    · rw [if_pos hpm] at he
      cases he
    · rw [if_neg hpm] at he
      obtain ⟨m₀, hm₀⟩ := h.entry_stored he
      refine ⟨?_, h.entry_name he⟩
      by_cases hj : e'.inode = e.inode
      · exact ⟨n', hj ▸ hself⟩
      · exact hsame.stored hj hm₀
  · intro m hm
    rw [hself] at hm
    cases hm
    constructor
    case id => rw [c.id, h.stored_id c.target]
    case linkCount => exact hsize
    case linked =>
      intro hdir hpos
      rw [hdirZero hdir] at hpos
      cases hpos
    case detached =>
      intro _ h0
      rw [c.parent, if_pos h0, c.kind]
      exact ⟨rfl, c.no_entries⟩
    case leaf =>
      intro hleaf
      rw [c.kind] at hleaf
      rw [c.parent, h.leaf_parent c.target hleaf]
      exact ite_self none
  · intro i m hm hdir hpos
    by_cases hi : i = e.inode
    · subst hi
      rw [hself] at hm
      cases hm
      rw [hdirZero hdir] at hpos
      cases hpos
    · obtain ⟨m₀, hm₀, hs, _⟩ := hsame.get hi hm
      rw [hs.directory] at hdir
      rw [hs.linkCount] at hpos
      refine Climbs.cut (fun y hy _ => hsame.parentInode hy) (h.not_parent ?_) hi
        (h.climbs hm₀ hdir hpos)
      intro m
      rw [entry_of_get c.target, c.no_entries]
      simp

end Unlinks

namespace Frees

variable {fs : Filesystem} {id : InodeId} {n : Inode}

theorem get_eq (j : InodeId) :
    (freed fs id n).inodes[j]? = if id = j then none else fs.inodes[j]? :=
  BTreeMap.get_erase fs.inodes id j

theorem no_entries (c : Frees fs id n) (h : Linked fs) (name : String) :
    fs.entry id name = none := by
  rw [entry_of_get c.stored]
  cases hdir : n.kind.isDirectory with
  | true =>
    rw [(h.directory_detached c.stored hdir c.linkCount).2]
    simp
  | false =>
    rw [entries_of_leaf hdir]
    simp

theorem no_links (c : Frees fs id n) (h : Linked fs) : fs.linksOf id = ∅ := by
  refine BTreeSet.eq_empty_of_size ?_
  rw [← h.linkCount_eq c.stored c.ne_root, c.linkCount]

theorem entry_eq (c : Frees fs id n) (h : Linked fs) (p : InodeId) (m : String) :
    (freed fs id n).entry p m = fs.entry p m := by
  by_cases hp : id = p
  · subst hp
    rw [c.no_entries h, entry, get_eq, if_pos rfl]
    rfl
  · rw [entry, get_eq, if_neg hp, ← entry]

theorem linksOf_eq (c : Frees fs id n) (h : Linked fs) (i : InodeId) :
    (freed fs id n).linksOf i = fs.linksOf i := by
  show ((fs.links.erase id)[i]?).getD ∅ = _
  rw [BTreeMap.get_erase]
  by_cases hi : id = i
  · subst hi
    rw [c.no_links h]
    simp
  · simp [hi, linksOf]

theorem keeps (c : Frees fs id n) (h : Linked fs) : Linked (freed fs id n) := by
  have hsame : SameExcept fs (freed fs id n) id := by
    intro j hj
    rw [get_eq, if_neg (Ne.symm hj)]
    cases hm : fs.inodes[j]? with
    | none => exact Or.inl ⟨rfl, rfl⟩
    | some m => exact Or.inr ⟨m, m, rfl, rfl, SamePlace.refl m, fun _ => rfl⟩
  have hgone : (freed fs id n).inodes[id]? = none := by rw [get_eq, if_pos rfl]
  have hget : ∀ (j : InodeId) (m : Inode), (freed fs id n).inodes[j]? = some m → j ≠ id ∧ fs.inodes[j]? = some m := by
    intro j m hm
    rw [get_eq] at hm
    by_cases hj : id = j
    · rw [if_pos hj] at hm
      cases hm
    · rw [if_neg hj] at hm
      exact ⟨Ne.symm hj, hm⟩
  refine h.update rfl c.ne_root hsame ?_ ?_ ?_ ?_ ?_ ?_ ?_
  · intro j m hm
    exact h.stored_lt (hget j m hm).2
  · intro j hj
    exact BTreeMap.get_erase_of_ne fs.links (Ne.symm hj)
  · show (fs.links.erase id)[id]? ≠ _
    rw [BTreeMap.get_erase, if_pos rfl]
    simp
  · intro i p m
    rw [c.linksOf_eq h, c.entry_eq h]
    exact h.mem_linksOf
  · intro p m e he
    rw [c.entry_eq h] at he
    obtain ⟨m₀, hm₀⟩ := h.entry_stored he
    refine ⟨⟨m₀, ?_⟩, h.entry_name he⟩
    have hne : id ≠ e.inode := by
      intro hid
      have hmem := h.entry_linked he
      rw [← hid, c.no_links h] at hmem
      exact Std.ExtTreeSet.not_mem_empty hmem
    rw [get_eq, if_neg hne, hm₀]
  · intro m hm
    rw [hgone] at hm
    cases hm
  · intro i m hm hdir hpos
    obtain ⟨hi, hm₀⟩ := hget i m hm
    exact Climbs.cut (fun y hy _ => hsame.parentInode hy) (h.not_parent (c.no_entries h)) hi
      (h.climbs hm₀ hdir hpos)

end Frees

namespace Moves

variable {fs : Filesystem} {oldParent newParent : InodeId} {d d₁ d' d₂ n n' : Inode}
  {oldName newName : String} {e : DirectoryEntry} {cookie nextCookie : Nat}

theorem entry_get (c : Moves fs oldParent d d₁ oldName newParent d' d₂ newName e cookie
    nextCookie n n') : fs.entry oldParent oldName = some e := by
  rw [entry_of_get c.stored, c.entry]

/-- The directory that receives the entry, as it was before the move. -/
theorem receiver (c : Moves fs oldParent d d₁ oldName newParent d' d₂ newName e cookie
    nextCookie n n') :
    (oldParent = newParent ∧ d' = d₁) ∨
      (oldParent ≠ newParent ∧ fs.inodes[newParent]? = some d') := by
  have hs := c.stored'
  rw [get_setInode] at hs
  by_cases hp : oldParent = newParent
  · rw [if_pos hp] at hs
    cases hs
    exact Or.inl ⟨hp, rfl⟩
  · rw [if_neg hp] at hs
    exact Or.inr ⟨hp, hs⟩

theorem old_directory (c : Moves fs oldParent d d₁ oldName newParent d' d₂ newName e cookie
    nextCookie n n') : d.kind.isDirectory = true := isDirectory_of_entries c.entry

theorem old_linked (c : Moves fs oldParent d d₁ oldName newParent d' d₂ newName e cookie
    nextCookie n n') (h : Linked fs) : 0 < d.linkCount := by
  obtain ⟨d₀, hd₀, _, hpos, _⟩ := h.parent_linked c.entry_get
  rw [c.stored] at hd₀
  cases hd₀
  exact hpos

theorem ne_newParent (c : Moves fs oldParent d d₁ oldName newParent d' d₂ newName e cookie
    nextCookie n n') : e.inode ≠ newParent := by
  intro he
  have hdir : n.kind.isDirectory = true := by
    rcases c.receiver with ⟨hp, _⟩ | ⟨_, hd'⟩
    · have hs := c.stored
      rw [hp, ← he, c.target] at hs
      cases hs
      exact c.old_directory
    · rw [← he, c.target] at hd'
      cases hd'
      exact c.directory
  obtain ⟨l, hl, hnot⟩ := c.acyclic hdir
  rw [he] at hnot
  exact hnot hl.mem_self

theorem ne_oldParent (c : Moves fs oldParent d d₁ oldName newParent d' d₂ newName e cookie
    nextCookie n n') (h : Linked fs) : e.inode ≠ oldParent := by
  intro he
  have hs := c.stored
  rw [← he, c.target] at hs
  cases hs
  obtain ⟨hone, hpar, _⟩ := h.directory_entry c.entry_get c.target c.old_directory
  obtain ⟨l, hl⟩ := h.climbs c.target c.old_directory (by omega)
  refine hl.par_ne_self (h.entry_ne_root c.entry_get) ?_
  rw [parentInode_of_get c.target, hpar, he]

/-- The state between the two directory writes. -/
theorem entry_between (c : Moves fs oldParent d d₁ oldName newParent d' d₂ newName e cookie
    nextCookie n n') (p : InodeId) (m : String) :
    (fs.setInode oldParent d₁).entry p m =
      if p = oldParent ∧ m = oldName then none else fs.entry p m := by
  refine entry_erase_eq c.stored c.entries.kind ?_ p m
  intro p m
  rw [entry_setInode]
  by_cases hp : p = oldParent
  · rw [if_pos hp, if_pos hp.symm]
  · rw [if_neg hp, if_neg (Ne.symm hp)]

theorem entry_eq (c : Moves fs oldParent d d₁ oldName newParent d' d₂ newName e cookie
    nextCookie n n') (h : Linked fs) (p : InodeId) (m : String) :
    (moved fs oldParent d₁ oldName newParent d₂ newName e.inode n').entry p m =
      if p = newParent ∧ m = newName then some { inode := e.inode, cookie := cookie }
      else if p = oldParent ∧ m = oldName then none else fs.entry p m := by
  rw [← c.entry_between]
  refine entry_insert_eq c.stored' c.entries'.kind (entry_two rfl c.ne_newParent ?_) p m
  intro m
  rw [entry_setInode, if_neg (Ne.symm (c.ne_oldParent h)), entry_of_get c.target, c.kind]

theorem get_self :
    (moved fs oldParent d₁ oldName newParent d₂ newName e.inode n').inodes[e.inode]? =
      some n' := by
  show (((fs.setInode oldParent d₁).setInode newParent d₂).setInode e.inode n').inodes[_]? = _
  rw [get_setInode, if_pos rfl]

theorem sameExcept (c : Moves fs oldParent d d₁ oldName newParent d' d₂ newName e cookie
    nextCookie n n') (h : Linked fs) :
    SameExcept fs (moved fs oldParent d₁ oldName newParent d₂ newName e.inode n') e.inode := by
  intro j hj
  show (_ ∧ (((fs.setInode oldParent d₁).setInode newParent d₂).setInode e.inode n').inodes[j]? =
    none) ∨ ∃ m m', _ ∧ (((fs.setInode oldParent d₁).setInode newParent d₂).setInode e.inode
    n').inodes[j]? = some m' ∧ _
  rw [get_setInode, if_neg (Ne.symm hj), get_setInode, get_setInode]
  by_cases hnew : newParent = j
  · subst hnew
    rw [if_pos rfl]
    rcases c.receiver with ⟨rfl, rfl⟩ | ⟨_, hd'⟩
    · refine Or.inr ⟨d, d₂, c.stored, rfl, ?_, fun h0 => absurd (c.old_linked h) (by omega)⟩
      have h₁ := c.entries.place
      have h₂ := c.entries'.place
      exact ⟨h₂.id.trans h₁.id, h₂.directory.trans h₁.directory, h₂.parent.trans h₁.parent,
        h₂.linkCount.trans h₁.linkCount⟩
    · exact Or.inr ⟨d', d₂, hd', rfl, c.entries'.place, fun h0 => absurd c.live (by omega)⟩
  · rw [if_neg hnew]
    by_cases hold : oldParent = j
    · subst hold
      rw [if_pos rfl]
      exact Or.inr ⟨d, d₁, c.stored, rfl, c.entries.place,
        fun h0 => absurd (c.old_linked h) (by omega)⟩
    · rw [if_neg hold]
      cases hm : fs.inodes[j]? with
      | none => exact Or.inl ⟨rfl, rfl⟩
      | some m => exact Or.inr ⟨m, m, rfl, rfl, SamePlace.refl m, fun _ => rfl⟩

theorem links_eq (c : Moves fs oldParent d d₁ oldName newParent d' d₂ newName e cookie
    nextCookie n n') (h : Linked fs) :
    fs.moveLink e.inode oldParent oldName newParent newName =
      fs.links.insert e.inode
        (((fs.linksOf e.inode).erase (oldParent, oldName)).insert (newParent, newName)) := by
  unfold moveLink
  cases hl : fs.links[e.inode]? with
  | none =>
    have hmem := h.entry_linked c.entry_get
    rw [linksOf_of_none hl] at hmem
    exact absurd hmem Std.ExtTreeSet.not_mem_empty
  | some links => rw [linksOf_of_some hl]

theorem keeps (c : Moves fs oldParent d d₁ oldName newParent d' d₂ newName e cookie
    nextCookie n n') (h : Linked fs) :
    Linked (moved fs oldParent d₁ oldName newParent d₂ newName e.inode n') := by
  have hentry := c.entry_eq h
  have hsame := c.sameExcept h
  have hself : (moved fs oldParent d₁ oldName newParent d₂ newName e.inode n').inodes[e.inode]? =
      some n' := get_self
  have hroot := h.entry_ne_root c.entry_get
  have hmem := h.entry_linked c.entry_get
  have hlinks : (moved fs oldParent d₁ oldName newParent d₂ newName e.inode n').links = _ :=
    c.links_eq h
  have hlinksOf : ∀ i, (moved fs oldParent d₁ oldName newParent d₂ newName e.inode n').linksOf i =
      if e.inode = i then
        ((fs.linksOf e.inode).erase (oldParent, oldName)).insert (newParent, newName)
      else fs.linksOf i := by
    intro i
    rw [linksOf, hlinks, BTreeMap.get_insert]
    by_cases hi : e.inode = i <;> simp [hi, linksOf]
  have hvacant : (if newParent = oldParent ∧ newName = oldName then none
      else fs.entry newParent newName) = none := by
    rw [c.vacant]
    exact ite_self none
  have hagree := (h.agree.remove c.entry_get).add hvacant { inode := e.inode, cookie := cookie }
  refine h.update rfl hroot hsame ?_ ?_ ?_ ?_ ?_ ?_ ?_
  · intro j m hm
    show j < fs.nextInode
    by_cases hj : j = e.inode
    · subst hj
      exact h.stored_lt c.target
    · obtain ⟨m₀, hm₀, _⟩ := hsame.get hj hm
      exact h.stored_lt hm₀
  · intro j hj
    rw [hlinks, BTreeMap.get_insert_of_ne _ _ (Ne.symm hj)]
  · rw [hlinks, BTreeMap.get_insert, if_pos rfl]
    simp
  · intro i p m
    rw [hlinksOf, hentry]
    have ha := hagree i p m
    dsimp only at ha
    rw [if_pos rfl] at ha
    rw [← ha]
    by_cases hi : e.inode = i
    · rw [if_pos hi, if_pos hi]
    · rw [if_neg hi, if_neg hi, if_neg hi]
  · intro p m e' he
    rw [hentry] at he
    by_cases hnew : p = newParent ∧ m = newName
    · rw [if_pos hnew] at he
      cases he
      exact ⟨⟨n', hself⟩, hnew.2 ▸ c.valid⟩
    · rw [if_neg hnew] at he
      by_cases hold : p = oldParent ∧ m = oldName
      · rw [if_pos hold] at he
        cases he
      · rw [if_neg hold] at he
        obtain ⟨m₀, hm₀⟩ := h.entry_stored he
        refine ⟨?_, h.entry_name he⟩
        by_cases hj : e'.inode = e.inode
        · exact ⟨n', hj ▸ hself⟩
        · exact hsame.stored hj hm₀
  · intro m hm
    rw [hself] at hm
    cases hm
    have hpos := h.linkCount_pos c.entry_get c.target
    constructor
    case id => rw [c.id, h.stored_id c.target]
    case linkCount =>
      have hnot : (newParent, newName) ∉ (fs.linksOf e.inode).erase (oldParent, oldName) := by
        rw [BTreeSet.mem_erase_iff, h.mem_linksOf, c.vacant]
        simp
      rw [hlinksOf, if_pos rfl, BTreeSet.size_insert_of_not_mem hnot,
        BTreeSet.size_erase_of_mem hmem, c.linkCount, h.linkCount_eq c.target hroot]
    case linked =>
      intro hdir _
      rw [c.kind] at hdir
      refine ⟨by rw [c.linkCount, (h.directory_entry c.entry_get c.target hdir).1], newParent,
        newName, by rw [c.parent, if_pos hdir], ?_⟩
      rw [hlinksOf, if_pos rfl]
      exact BTreeSet.mem_insert_iff.mpr (Or.inl rfl)
    case detached =>
      intro _ h0
      rw [c.linkCount] at h0
      omega
    case leaf =>
      intro hleaf
      rw [c.kind] at hleaf
      rw [c.parent, hleaf, h.leaf_parent c.target hleaf]
      rfl
  · intro i m hm hdir hpos
    have hi : Climbs fs.parentInode fs.root i := by
      by_cases hi : i = e.inode
      · subst hi
        rw [hself] at hm
        cases hm
        rw [c.kind] at hdir
        rw [c.linkCount] at hpos
        exact h.climbs c.target hdir hpos
      · obtain ⟨m₀, hm₀, hs, _⟩ := hsame.get hi hm
        rw [hs.directory] at hdir
        rw [hs.linkCount] at hpos
        exact h.climbs hm₀ hdir hpos
    cases hn : n.kind.isDirectory with
    | true =>
      obtain ⟨l, hl, hnot⟩ := c.acyclic hn
      refine Climbs.reparent ?_ (fun y hy _ => hsame.parentInode hy) hl hnot hroot hi
      rw [parentInode_of_get hself, c.parent, if_pos hn]
    | false =>
      refine climbs_of_parents ?_ hi
      intro y
      by_cases hy : y = e.inode
      · subst hy
        rw [parentInode_of_get hself, parentInode_of_get c.target, c.parent, hn]
        rfl
      · exact hsame.parentInode hy

end Moves

end Riscbox.Filesystem

import Riscbox.Filesystem.WellFormed

/-!
# What one write can do to the tree

The states that the mutators write, each with the inodes it replaces as arguments.
Times, modes and versions are left open: they are part of the new inodes, and nothing
here depends on them.
-/

namespace Riscbox.Filesystem

/-- Two states of an inode with the same place in the tree. -/
structure SamePlace (m m' : Inode) : Prop where
  id : m'.id = m.id
  directory : m'.kind.isDirectory = m.kind.isDirectory
  parent : m'.parent = m.parent
  linkCount : m'.linkCount = m.linkCount

theorem SamePlace.refl (m : Inode) : SamePlace m m := ⟨rfl, rfl, rfl, rfl⟩

/-- Outside `x`, every inode keeps its place, and a detached one its entries. -/
def SameExcept (fs fs' : Filesystem) (x : InodeId) : Prop :=
  ∀ j, j ≠ x → (fs.inodes[j]? = none ∧ fs'.inodes[j]? = none) ∨
    ∃ m m', fs.inodes[j]? = some m ∧ fs'.inodes[j]? = some m' ∧ SamePlace m m' ∧
      (m.linkCount = 0 → m'.kind.entries = m.kind.entries)

theorem SameExcept.get {fs fs' : Filesystem} {x j : InodeId} {m' : Inode}
    (h : SameExcept fs fs' x) (hj : j ≠ x) (hm : fs'.inodes[j]? = some m') :
    ∃ m, fs.inodes[j]? = some m ∧ SamePlace m m' ∧
      (m.linkCount = 0 → m'.kind.entries = m.kind.entries) := by
  rcases h j hj with ⟨_, hnone⟩ | ⟨m, m'', hget, hget', hsame, hdet⟩
  · rw [hm] at hnone
    cases hnone
  · rw [hm] at hget'
    cases hget'
    exact ⟨m, hget, hsame, hdet⟩

theorem SameExcept.parentInode {fs fs' : Filesystem} {x j : InodeId}
    (h : SameExcept fs fs' x) (hj : j ≠ x) : fs'.parentInode j = fs.parentInode j := by
  rcases h j hj with ⟨hn, hn'⟩ | ⟨m, m', hm, hm', hsame, _⟩
  · rw [Filesystem.parentInode, Filesystem.parentInode, hn, hn']
  · rw [parentInode_of_get hm, parentInode_of_get hm', hsame.parent]

/-- The conditions on the inode whose place changes. -/
structure Placed (fs : Filesystem) (x : InodeId) (n : Inode) : Prop where
  id : n.id = x
  linkCount : n.linkCount = (fs.linksOf x).size
  linked : n.kind.isDirectory = true → 0 < n.linkCount →
    n.linkCount = 1 ∧ ∃ p name, n.parent = some p ∧ (p, name) ∈ fs.linksOf x
  detached : n.kind.isDirectory = true → n.linkCount = 0 →
    n.parent = none ∧ n.kind.entries = ∅
  leaf : n.kind.isDirectory = false → n.parent = none

/-- One inode changes its place and the others keep theirs. -/
theorem Linked.update {fs fs' : Filesystem} {x : InodeId} (h : Linked fs)
    (hroot : fs'.root = fs.root) (hx : x ≠ fs.root) (hsame : SameExcept fs fs' x)
    (hlt : ∀ j m, fs'.inodes[j]? = some m → j < fs'.nextInode)
    (hlinks : ∀ j, j ≠ x → fs'.links[j]? = fs.links[j]?)
    (hxlinks : fs'.links[x]? ≠ some ∅)
    (hmem : ∀ i p name, (p, name) ∈ fs'.linksOf i ↔
      ∃ e, fs'.entry p name = some e ∧ e.inode = i)
    (hentry : ∀ p name e, fs'.entry p name = some e →
      (∃ n, fs'.inodes[e.inode]? = some n) ∧ checkName name = .ok ())
    (hplaced : ∀ n, fs'.inodes[x]? = some n → Placed fs' x n)
    (hclimb : ∀ i n, fs'.inodes[i]? = some n → n.kind.isDirectory = true → 0 < n.linkCount →
      Climbs fs'.parentInode fs.root i) : Linked fs' := by
  have hlinksOf : ∀ j, j ≠ x → fs'.linksOf j = fs.linksOf j := by
    intro j hj
    rw [linksOf, linksOf, hlinks j hj]
  constructor
  case stored_id =>
    intro j m hm
    by_cases hj : j = x
    · subst hj
      exact (hplaced m hm).id
    · obtain ⟨m₀, hm₀, hs, _⟩ := hsame.get hj hm
      rw [hs.id, h.stored_id hm₀]
  case stored_lt => exact fun {j m} => hlt j m
  case root_stored =>
    rw [hroot]
    obtain ⟨n, hn, hdir, hone, hpar⟩ := h.root_stored
    rcases hsame fs.root (Ne.symm hx) with ⟨hnone, _⟩ | ⟨m, m', hm, hm', hs, _⟩
    · rw [hn] at hnone
      cases hnone
    · rw [hn] at hm
      cases hm
      exact ⟨m', hm', hs.directory.trans hdir, hs.linkCount.trans hone, hs.parent.trans hpar⟩
  case root_unlinked => rw [hroot, hlinks _ (Ne.symm hx), h.root_unlinked]
  case mem_linksOf => exact fun {i p name} => hmem i p name
  case links_nonempty =>
    intro j links hl
    by_cases hj : j = x
    · subst hj
      rintro rfl
      exact hxlinks hl
    · rw [hlinks j hj] at hl
      exact h.links_nonempty hl
  case linkCount_eq =>
    intro j m hm hjr
    rw [hroot] at hjr
    by_cases hj : j = x
    · subst hj
      exact (hplaced m hm).linkCount
    · obtain ⟨m₀, hm₀, hs, _⟩ := hsame.get hj hm
      rw [hs.linkCount, h.linkCount_eq hm₀ hjr, hlinksOf j hj]
  case entry_stored => exact fun {p name e} he => (hentry p name e he).1
  case entry_name => exact fun {p name e} he => (hentry p name e he).2
  case directory_linked =>
    intro j m hm hdir hjr hpos
    rw [hroot] at hjr
    by_cases hj : j = x
    · subst hj
      exact (hplaced m hm).linked hdir hpos
    · obtain ⟨m₀, hm₀, hs, _⟩ := hsame.get hj hm
      rw [hs.linkCount, hs.parent, hlinksOf j hj]
      rw [hs.directory] at hdir
      rw [hs.linkCount] at hpos
      exact h.directory_linked hm₀ hdir hjr hpos
  case directory_detached =>
    intro j m hm hdir hzero
    by_cases hj : j = x
    · subst hj
      exact (hplaced m hm).detached hdir hzero
    · obtain ⟨m₀, hm₀, hs, hdet⟩ := hsame.get hj hm
      rw [hs.directory] at hdir
      rw [hs.linkCount] at hzero
      obtain ⟨hpar, hents⟩ := h.directory_detached hm₀ hdir hzero
      exact ⟨hs.parent.trans hpar, (hdet hzero).trans hents⟩
  case leaf_parent =>
    intro j m hm hleaf
    by_cases hj : j = x
    · subst hj
      exact (hplaced m hm).leaf hleaf
    · obtain ⟨m₀, hm₀, hs, _⟩ := hsame.get hj hm
      rw [hs.directory] at hleaf
      rw [hs.parent, h.leaf_parent hm₀ hleaf]
  case climbs =>
    intro j m hm hdir hpos
    rw [hroot]
    exact hclimb j m hm hdir hpos

/-! ## Entries and reverse links -/

/-- The reverse links are the inverse of the entries. -/
def Agree (links : InodeId → BTreeSet (InodeId × String))
    (entry : InodeId → String → Option DirectoryEntry) : Prop :=
  ∀ i p name, (p, name) ∈ links i ↔ ∃ e, entry p name = some e ∧ e.inode = i

theorem Agree.add {links : InodeId → BTreeSet (InodeId × String)}
    {entry : InodeId → String → Option DirectoryEntry} {parent : InodeId} {name : String}
    (h : Agree links entry) (hnone : entry parent name = none) (e : DirectoryEntry) :
    Agree (fun i => if e.inode = i then (links e.inode).insert (parent, name) else links i)
      (fun p n => if p = parent ∧ n = name then some e else entry p n) := by
  intro i p n
  dsimp only
  by_cases hpn : p = parent ∧ n = name
  · obtain ⟨rfl, rfl⟩ := hpn
    have hnot : (p, n) ∉ links i := by
      rw [h i p n, hnone]
      simp
    by_cases hi : e.inode = i
    · subst hi
      simp
    · simp [hi, hnot]
  · have hne : ¬ ((parent, name) = (p, n)) := by
      intro he
      cases he
      exact hpn ⟨rfl, rfl⟩
    rw [if_neg hpn, ← h i p n]
    by_cases hi : e.inode = i
    · subst hi
      rw [if_pos rfl, BTreeSet.mem_insert_iff]
      simp only [hne, false_or]
    · rw [if_neg hi]

theorem Agree.remove {links : InodeId → BTreeSet (InodeId × String)}
    {entry : InodeId → String → Option DirectoryEntry} {parent : InodeId} {name : String}
    {e : DirectoryEntry} (h : Agree links entry) (he : entry parent name = some e) :
    Agree (fun i => if e.inode = i then (links e.inode).erase (parent, name) else links i)
      (fun p n => if p = parent ∧ n = name then none else entry p n) := by
  intro i p n
  dsimp only
  by_cases hpn : p = parent ∧ n = name
  · obtain ⟨rfl, rfl⟩ := hpn
    by_cases hi : e.inode = i
    · subst hi
      simp
    · have hnot : (p, n) ∉ links i := by
        rw [h i p n, he]
        simp [hi]
      simp [hi, hnot]
  · have hne : (parent, name) ≠ (p, n) := by
      intro he
      cases he
      exact hpn ⟨rfl, rfl⟩
    rw [if_neg hpn, ← h i p n]
    by_cases hi : e.inode = i
    · subst hi
      rw [if_pos rfl, BTreeSet.mem_erase_iff]
      simp only [hne, true_and, ne_eq, not_false_eq_true]
    · rw [if_neg hi]

theorem Linked.agree {fs : Filesystem} (h : Linked fs) : Agree fs.linksOf fs.entry :=
  fun _ _ _ => h.mem_linksOf

theorem linksOf_addLink {fs fs' : Filesystem} {id parent : InodeId} {name : String}
    (hlinks : fs'.links = fs.addLink id parent name) (i : InodeId) :
    fs'.linksOf i = if id = i then (fs.linksOf id).insert (parent, name) else fs.linksOf i := by
  rw [linksOf, hlinks, addLink, BTreeMap.get_insert]
  by_cases hi : id = i <;> simp [hi, linksOf]

theorem links_addLink_ne {fs fs' : Filesystem} {id parent i : InodeId} {name : String}
    (hlinks : fs'.links = fs.addLink id parent name) (hi : i ≠ id) :
    fs'.links[i]? = fs.links[i]? := by
  rw [hlinks, addLink, BTreeMap.get_insert_of_ne _ _ (Ne.symm hi)]

theorem links_addLink_self {fs fs' : Filesystem} {id parent : InodeId} {name : String}
    (hlinks : fs'.links = fs.addLink id parent name) : fs'.links[id]? ≠ some ∅ := by
  rw [hlinks, addLink, BTreeMap.get_insert, if_pos rfl]
  simp

theorem linksOf_dropLink {fs fs' : Filesystem} {id parent : InodeId} {name : String}
    (hlinks : fs'.links = fs.dropLink id parent name) (i : InodeId) :
    fs'.linksOf i = if id = i then (fs.linksOf id).erase (parent, name) else fs.linksOf i := by
  rw [linksOf, hlinks, dropLink]
  cases hl : fs.links[id]? with
  | none =>
    by_cases hi : id = i
    · subst hi
      simp [hl, linksOf]
    · simp [hi, linksOf]
  | some links =>
    simp only
    by_cases hempty : (links.erase (parent, name)).isEmpty = true
    · rw [if_pos hempty, BTreeMap.get_erase]
      by_cases hi : id = i
      · subst hi
        rw [Std.ExtTreeSet.isEmpty_iff] at hempty
        simp [linksOf, hl, hempty]
      · simp [hi, linksOf]
    · rw [if_neg hempty, BTreeMap.get_insert]
      by_cases hi : id = i
      · subst hi
        simp [linksOf, hl]
      · simp [hi, linksOf]

theorem links_dropLink_ne {fs fs' : Filesystem} {id parent i : InodeId} {name : String}
    (hlinks : fs'.links = fs.dropLink id parent name) (hi : i ≠ id) :
    fs'.links[i]? = fs.links[i]? := by
  rw [hlinks, dropLink]
  split
  · dsimp only
    split
    · rw [BTreeMap.get_erase_of_ne _ (Ne.symm hi)]
    · rw [BTreeMap.get_insert_of_ne _ _ (Ne.symm hi)]
  · rfl

theorem links_dropLink_self {fs fs' : Filesystem} {id parent : InodeId} {name : String}
    (hlinks : fs'.links = fs.dropLink id parent name) : fs'.links[id]? ≠ some ∅ := by
  rw [hlinks, dropLink]
  split
  next links hl =>
    dsimp only
    by_cases hempty : (links.erase (parent, name)).isEmpty = true
    · rw [if_pos hempty, BTreeMap.get_erase, if_pos rfl]
      simp
    · rw [if_neg hempty, BTreeMap.get_insert, if_pos rfl]
      rw [Std.ExtTreeSet.isEmpty_iff] at hempty
      simpa using hempty
  next hl => simp [hl]

/-! ## The written states -/

/-- A new inode under a vacant name of a linked directory. -/
def created (fs : Filesystem) (parent : InodeId) (d' : Inode) (name : String) (n' : Inode) :
    Filesystem :=
  { (fs.setInode parent d').setInode fs.nextInode n' with
    nextInode := fs.nextInode + 1
    links := fs.addLink fs.nextInode parent name
    logicalBytes := fs.logicalBytes + n'.kind.bodyLength
    directoryEntries := fs.directoryEntries + 1 }

/-- One more link of a file or symlink. -/
def linked (fs : Filesystem) (parent : InodeId) (d' : Inode) (name : String) (id : InodeId)
    (n' : Inode) : Filesystem :=
  { (fs.setInode parent d').setInode id n' with
    links := fs.addLink id parent name
    directoryEntries := fs.directoryEntries + 1 }

/-- One link less. -/
def unlinked (fs : Filesystem) (parent : InodeId) (d' : Inode) (name : String) (id : InodeId)
    (n' : Inode) : Filesystem :=
  { (fs.setInode parent d').setInode id n' with
    links := fs.dropLink id parent name
    directoryEntries := fs.directoryEntries - 1 }

/-- An inode without links and fids is forgotten, with its bytes and locks. -/
def freed (fs : Filesystem) (id : InodeId) (n : Inode) : Filesystem :=
  { fs with
    inodes := fs.inodes.erase id
    links := fs.links.erase id
    logicalBytes := fs.logicalBytes - n.kind.bodyLength
    locks := fs.locks.filter (·.inode ≠ id) }

/-- One link changes its place. -/
def moved (fs : Filesystem) (oldParent : InodeId) (d₁ : Inode) (oldName : String)
    (newParent : InodeId) (d₂ : Inode) (newName : String) (id : InodeId) (n' : Inode) :
    Filesystem :=
  { ((fs.setInode oldParent d₁).setInode newParent d₂).setInode id n' with
    links := fs.moveLink id oldParent oldName newParent newName }

/-- New contents of a regular file. -/
def rewritten (fs : Filesystem) (id : InodeId) (n n' : Inode) : Filesystem :=
  { fs.setInode id n' with
    logicalBytes := fs.logicalBytes - n.kind.bodyLength + n'.kind.bodyLength }

/-! ## When they are written -/

/-- A directory whose entries change and whose place does not. -/
structure NewEntries (d d' : Inode) (entries : Entries) (nextCookie : Nat) : Prop where
  place : SamePlace d d'
  fidRefs : d'.fidRefs = d.fidRefs
  kind : d'.kind = .directory entries nextCookie

structure Creates (fs : Filesystem) (parent : InodeId) (d d' : Inode) (name : String)
    (n' : Inode) : Prop where
  stored : fs.inodes[parent]? = some d
  directory : d.kind.isDirectory = true
  live : 0 < d.linkCount
  valid : checkName name = .ok ()
  vacant : d.kind.entries[name]? = none
  entries : NewEntries d d'
    (d.kind.entries.insert name { inode := fs.nextInode, cookie := d.kind.nextCookie })
    (d.kind.nextCookie + 1)
  cookie : d.kind.nextCookie + 1 ≤ u64Max
  nextInode : fs.nextInode + 1 ≤ u64Max
  id : n'.id = fs.nextInode
  parent : n'.parent = if n'.kind.isDirectory then some parent else none
  linkCount : n'.linkCount = 1
  fidRefs : n'.fidRefs = 0
  empty : n'.kind = .directory ∅ 1 ∨ n'.kind.isDirectory = false
  inodes : fs.inodes.size < fs.limits.maxInodes
  directoryEntries : fs.directoryEntries < fs.limits.maxDirectoryEntries
  body : n'.kind.bodyLength ≤ fs.limits.maxFileBytes
  target : n'.kind.targetLength ≤ maxTargetBytes
  bytes : fs.logicalBytes + n'.kind.bodyLength ≤ fs.limits.maxTreeBytes

structure Links (fs : Filesystem) (parent : InodeId) (d d' : Inode) (name : String)
    (id : InodeId) (n n' : Inode) : Prop where
  stored : fs.inodes[parent]? = some d
  directory : d.kind.isDirectory = true
  live : 0 < d.linkCount
  valid : checkName name = .ok ()
  vacant : d.kind.entries[name]? = none
  entries : NewEntries d d'
    (d.kind.entries.insert name { inode := id, cookie := d.kind.nextCookie })
    (d.kind.nextCookie + 1)
  cookie : d.kind.nextCookie + 1 ≤ u64Max
  target : fs.inodes[id]? = some n
  leaf : n.kind.isDirectory = false
  id : n'.id = n.id
  kind : n'.kind = n.kind
  parent : n'.parent = n.parent
  linkCount : n'.linkCount = n.linkCount + 1
  linkCount_le : n.linkCount + 1 ≤ u32Max
  fidRefs : n'.fidRefs = n.fidRefs
  directoryEntries : fs.directoryEntries < fs.limits.maxDirectoryEntries

structure Unlinks (fs : Filesystem) (parent : InodeId) (d d' : Inode) (name : String)
    (e : DirectoryEntry) (n n' : Inode) : Prop where
  stored : fs.inodes[parent]? = some d
  entry : d.kind.entries[name]? = some e
  entries : NewEntries d d' (d.kind.entries.erase name) d.kind.nextCookie
  target : fs.inodes[e.inode]? = some n
  empty : n.kind.isDirectory = true → n.kind.entries = ∅
  id : n'.id = n.id
  kind : n'.kind = n.kind
  parent : n'.parent = if n'.linkCount = 0 then none else n.parent
  linkCount : n'.linkCount = n.linkCount - 1
  fidRefs : n'.fidRefs = n.fidRefs

structure Frees (fs : Filesystem) (id : InodeId) (n : Inode) : Prop where
  stored : fs.inodes[id]? = some n
  linkCount : n.linkCount = 0
  ne_root : id ≠ fs.root

structure Moves (fs : Filesystem) (oldParent : InodeId) (d d₁ : Inode) (oldName : String)
    (newParent : InodeId) (d' d₂ : Inode) (newName : String) (e : DirectoryEntry)
    (cookie nextCookie : Nat) (n n' : Inode) : Prop where
  stored : fs.inodes[oldParent]? = some d
  entry : d.kind.entries[oldName]? = some e
  entries : NewEntries d d₁ (d.kind.entries.erase oldName) d.kind.nextCookie
  stored' : (fs.setInode oldParent d₁).inodes[newParent]? = some d'
  directory : d'.kind.isDirectory = true
  live : 0 < d'.linkCount
  valid : checkName newName = .ok ()
  vacant : fs.entry newParent newName = none
  entries' : NewEntries d' d₂
    (d'.kind.entries.insert newName { inode := e.inode, cookie := cookie }) nextCookie
  cookies : (oldParent = newParent ∧ cookie = e.cookie ∧ nextCookie = d'.kind.nextCookie) ∨
    (oldParent ≠ newParent ∧ cookie = d'.kind.nextCookie ∧
      nextCookie = d'.kind.nextCookie + 1 ∧ d'.kind.nextCookie + 1 ≤ u64Max)
  target : fs.inodes[e.inode]? = some n
  acyclic : n.kind.isDirectory = true →
    ∃ l, Climb fs.parentInode fs.root newParent l ∧ e.inode ∉ l
  id : n'.id = n.id
  kind : n'.kind = n.kind
  parent : n'.parent = if n.kind.isDirectory then some newParent else n.parent
  linkCount : n'.linkCount = n.linkCount
  fidRefs : n'.fidRefs = n.fidRefs

structure Rewrites (fs : Filesystem) (id : InodeId) (n n' : Inode) : Prop where
  stored : fs.inodes[id]? = some n
  file : n.kind.isFile = true
  file' : n'.kind.isFile = true
  place : SamePlace n n'
  fidRefs : n'.fidRefs = n.fidRefs
  body : n'.kind.bodyLength ≤ fs.limits.maxFileBytes
  bytes : fs.logicalBytes - n.kind.bodyLength + n'.kind.bodyLength ≤ fs.limits.maxTreeBytes

end Riscbox.Filesystem

import Riscbox.Collections.Forest
import Riscbox.Filesystem.Mutate

/-!
# Well-formed namespaces

`Linked` ties the four redundant records of the tree together: directory entries,
reverse links, link counts and parents.  `Namespace` adds that an inode without links
is stored only while a fid holds it.  `Accounted` ties the two running totals to
what is stored and keeps them inside the quotas.  Every mutator assumes both and
keeps both.
-/

namespace Riscbox.Filesystem

/-- The entry of a stored directory under a name. -/
def entry (fs : Filesystem) (parent : InodeId) (name : String) : Option DirectoryEntry :=
  fs.inodes[parent]?.bind fun inode => inode.kind.entries[name]?

/-- The agreement of entries, reverse links, link counts and parents. -/
structure Linked (fs : Filesystem) : Prop where
  stored_id : ∀ {i : InodeId} {n : Inode}, fs.inodes[i]? = some n → n.id = i
  stored_lt : ∀ {i : InodeId} {n : Inode}, fs.inodes[i]? = some n → i < fs.nextInode
  root_stored : ∃ n, fs.inodes[fs.root]? = some n ∧ n.kind.isDirectory = true ∧
    n.linkCount = 1 ∧ n.parent = none
  root_unlinked : fs.links[fs.root]? = none
  mem_linksOf : ∀ {i p : InodeId} {name : String}, (p, name) ∈ fs.linksOf i ↔
    ∃ e, fs.entry p name = some e ∧ e.inode = i
  links_nonempty : ∀ {i : InodeId} {links : BTreeSet (InodeId × String)}, fs.links[i]? = some links → links ≠ ∅
  linkCount_eq : ∀ {i : InodeId} {n : Inode}, fs.inodes[i]? = some n → i ≠ fs.root →
    n.linkCount = (fs.linksOf i).size
  entry_stored : ∀ {p : InodeId} {name : String} {e : DirectoryEntry}, fs.entry p name = some e → ∃ n, fs.inodes[e.inode]? = some n
  entry_name : ∀ {p : InodeId} {name : String} {e : DirectoryEntry}, fs.entry p name = some e → checkName name = .ok ()
  directory_linked : ∀ {i : InodeId} {n : Inode}, fs.inodes[i]? = some n → n.kind.isDirectory = true →
    i ≠ fs.root → 0 < n.linkCount →
    n.linkCount = 1 ∧ ∃ p name, n.parent = some p ∧ (p, name) ∈ fs.linksOf i
  directory_detached : ∀ {i : InodeId} {n : Inode}, fs.inodes[i]? = some n → n.kind.isDirectory = true →
    n.linkCount = 0 → n.parent = none ∧ n.kind.entries = ∅
  leaf_parent : ∀ {i : InodeId} {n : Inode}, fs.inodes[i]? = some n → n.kind.isDirectory = false → n.parent = none
  climbs : ∀ {i : InodeId} {n : Inode}, fs.inodes[i]? = some n → n.kind.isDirectory = true → 0 < n.linkCount →
    Climbs fs.parentInode fs.root i

structure Namespace (fs : Filesystem) : Prop extends Linked fs where
  retained : ∀ {i : InodeId} {n : Inode}, fs.inodes[i]? = some n → n.linkCount = 0 →
    0 < n.fidRefs

structure Accounted (fs : Filesystem) : Prop where
  logicalBytes_eq : fs.logicalBytes =
    BTreeMap.total (fun _ n => n.kind.bodyLength) fs.inodes
  directoryEntries_eq : fs.directoryEntries =
    BTreeMap.total (fun _ n => n.kind.entries.size) fs.inodes
  logicalBytes_le : fs.logicalBytes ≤ fs.limits.maxTreeBytes
  body_le : ∀ {i : InodeId} {n : Inode}, fs.inodes[i]? = some n → n.kind.bodyLength ≤ fs.limits.maxFileBytes
  target_le : ∀ {i : InodeId} {n : Inode}, fs.inodes[i]? = some n → n.kind.targetLength ≤ maxTargetBytes
  directoryEntries_le : fs.directoryEntries ≤ fs.limits.maxDirectoryEntries
  inodes_le : fs.inodes.size ≤ max 1 fs.limits.maxInodes

structure WellFormed (fs : Filesystem) : Prop where
  tree : Namespace fs
  account : Accounted fs

/-! ## Reading the maps -/

theorem entry_of_get {fs : Filesystem} {p : InodeId} {d : Inode}
    (h : fs.inodes[p]? = some d) (name : String) : fs.entry p name = d.kind.entries[name]? := by
  rw [entry, h]
  rfl

theorem get_of_entry {fs : Filesystem} {p : InodeId} {name : String} {e : DirectoryEntry}
    (h : fs.entry p name = some e) :
    ∃ d, fs.inodes[p]? = some d ∧ d.kind.entries[name]? = some e :=
  Option.bind_eq_some_iff.mp h

theorem isDirectory_of_entries {kind : InodeKind} {name : String} {e : DirectoryEntry}
    (h : kind.entries[name]? = some e) : kind.isDirectory = true := by
  cases kind with
  | directory entries nextCookie => rfl
  | file body => simp [InodeKind.entries] at h
  | symlink target => simp [InodeKind.entries] at h

theorem kind_eq_directory {kind : InodeKind} (h : kind.isDirectory = true) :
    kind = .directory kind.entries kind.nextCookie := by
  cases kind with
  | directory entries nextCookie => rfl
  | file body => cases h
  | symlink target => cases h

@[simp] theorem inodeOf_of_get {fs : Filesystem} {i : InodeId} {n : Inode}
    (h : fs.inodes[i]? = some n) : fs.inodeOf i = .ok n := by
  rw [inodeOf, h]
  rfl

theorem inodeOf_of_none {fs : Filesystem} {i : InodeId} (h : fs.inodes[i]? = none) :
    fs.inodeOf i = .err .notFound := by
  rw [inodeOf, h]
  rfl

theorem parentInode_of_get {fs : Filesystem} {i : InodeId} {n : Inode}
    (h : fs.inodes[i]? = some n) : fs.parentInode i = n.parent := by
  rw [parentInode, h]
  rfl

theorem linksOf_of_none {fs : Filesystem} {i : InodeId} (h : fs.links[i]? = none) :
    fs.linksOf i = ∅ := by
  rw [linksOf, h]
  rfl

theorem linksOf_of_some {fs : Filesystem} {i : InodeId} {links : BTreeSet (InodeId × String)}
    (h : fs.links[i]? = some links) : fs.linksOf i = links := by
  rw [linksOf, h]
  rfl

theorem get_setInode (fs : Filesystem) (i j : InodeId) (n : Inode) :
    (fs.setInode i n).inodes[j]? = if i = j then some n else fs.inodes[j]? :=
  BTreeMap.get_insert fs.inodes i j n

theorem entry_setInode (fs : Filesystem) (i p : InodeId) (n : Inode) (name : String) :
    (fs.setInode i n).entry p name =
      if i = p then n.kind.entries[name]? else fs.entry p name := by
  unfold entry
  rw [get_setInode]
  by_cases h : i = p <;> simp [h]

/-! ## Consequences -/

namespace Linked

variable {fs : Filesystem} {i p : InodeId} {n d : Inode} {name : String} {e : DirectoryEntry}

theorem entry_linked (h : Linked fs) (he : fs.entry p name = some e) :
    (p, name) ∈ fs.linksOf e.inode :=
  h.mem_linksOf.mpr ⟨e, he, rfl⟩

theorem linksOf_root (h : Linked fs) : fs.linksOf fs.root = ∅ :=
  linksOf_of_none h.root_unlinked

theorem entry_ne_root (h : Linked fs) (he : fs.entry p name = some e) :
    e.inode ≠ fs.root := by
  intro hr
  have hmem := h.entry_linked he
  rw [hr, h.linksOf_root] at hmem
  exact Std.ExtTreeSet.not_mem_empty hmem

/-- A directory with an entry is linked. -/
theorem parent_linked (h : Linked fs) (he : fs.entry p name = some e) :
    ∃ d, fs.inodes[p]? = some d ∧ d.kind.isDirectory = true ∧ 0 < d.linkCount ∧
      d.kind.entries[name]? = some e := by
  obtain ⟨d, hd, hname⟩ := get_of_entry he
  have hdir := isDirectory_of_entries hname
  refine ⟨d, hd, hdir, ?_, hname⟩
  rcases Nat.eq_zero_or_pos d.linkCount with h0 | hpos
  · rw [(h.directory_detached hd hdir h0).2] at hname
    simp at hname
  · exact hpos

theorem linkCount_pos (h : Linked fs) (he : fs.entry p name = some e)
    (hn : fs.inodes[e.inode]? = some n) : 0 < n.linkCount := by
  rw [h.linkCount_eq hn (h.entry_ne_root he)]
  rcases Nat.eq_zero_or_pos (fs.linksOf e.inode).size with h0 | hpos
  · have hmem := h.entry_linked he
    rw [BTreeSet.eq_empty_of_size h0] at hmem
    exact absurd hmem Std.ExtTreeSet.not_mem_empty
  · exact hpos

/-- The only link of a directory is its parent's. -/
theorem directory_entry (h : Linked fs) (he : fs.entry p name = some e)
    (hn : fs.inodes[e.inode]? = some n) (hdir : n.kind.isDirectory = true) :
    n.linkCount = 1 ∧ n.parent = some p ∧ (fs.linksOf e.inode).size = 1 := by
  have hne := h.entry_ne_root he
  obtain ⟨hone, q, name', hq, hmem⟩ :=
    h.directory_linked hn hdir hne (h.linkCount_pos he hn)
  have hsize : (fs.linksOf e.inode).size = 1 := by rw [← h.linkCount_eq hn hne, hone]
  have heq := BTreeSet.eq_of_size_one hsize hmem (h.entry_linked he)
  cases heq
  exact ⟨hone, hq, hsize⟩

theorem linksOf_of_unstored (h : Linked fs) (hi : fs.inodes[i]? = none) :
    fs.linksOf i = ∅ := by
  refine Std.ExtTreeSet.eq_empty_iff_forall_not_mem.mpr ?_
  rintro ⟨p, name⟩ hmem
  obtain ⟨e, he, rfl⟩ := h.mem_linksOf.mp hmem
  obtain ⟨n, hn⟩ := h.entry_stored he
  rw [hi] at hn
  cases hn

theorem links_of_empty (h : Linked fs) (hi : fs.linksOf i = ∅) : fs.links[i]? = none := by
  cases hl : fs.links[i]? with
  | none => rfl
  | some links =>
    rw [linksOf_of_some hl] at hi
    exact absurd hi (h.links_nonempty hl)

theorem fresh (h : Linked fs) : fs.inodes[fs.nextInode]? = none := by
  cases hn : fs.inodes[fs.nextInode]? with
  | none => rfl
  | some n => exact absurd (h.stored_lt hn) (Nat.lt_irrefl _)

theorem root_parent (h : Linked fs) : fs.parentInode fs.root = none := by
  obtain ⟨n, hn, _, _, hp⟩ := h.root_stored
  rw [parentInode_of_get hn, hp]

/-- A parent pointer belongs to a directory and is one of its links. -/
theorem entry_of_parent (h : Linked fs) (hp : fs.parentInode i = some p) :
    ∃ name e, fs.entry p name = some e ∧ e.inode = i := by
  rw [parentInode, Option.bind_eq_some_iff] at hp
  obtain ⟨n, hn, hp⟩ := hp
  have hdir : n.kind.isDirectory = true := by
    by_contra hleaf
    rw [h.leaf_parent hn (by simpa using hleaf)] at hp
    cases hp
  have hne : i ≠ fs.root := by
    rintro rfl
    have hr := h.root_parent
    rw [parentInode_of_get hn, hp] at hr
    cases hr
  have hpos : 0 < n.linkCount := by
    rcases Nat.eq_zero_or_pos n.linkCount with h0 | hpos
    · rw [(h.directory_detached hn hdir h0).1] at hp
      cases hp
    · exact hpos
  obtain ⟨_, q, name, hq, hmem⟩ := h.directory_linked hn hdir hne hpos
  rw [hp] at hq
  cases hq
  obtain ⟨e, he, hi⟩ := h.mem_linksOf.mp hmem
  exact ⟨name, e, he, hi⟩

/-- The nodes of a climb are stored. -/
theorem climb_stored (h : Linked fs) {l : List InodeId} {x : InodeId}
    (hl : Climb fs.parentInode fs.root x l) : ∀ y ∈ l, fs.inodes[y]? ≠ none := by
  induction hl with
  | root =>
    intro y hy
    rw [List.mem_singleton] at hy
    obtain ⟨n, hn, _⟩ := h.root_stored
    rw [hy, hn]
    simp
  | @up x p l hne hp _ ih =>
    intro y hy
    rcases List.mem_cons.mp hy with rfl | hy
    · intro hnone
      rw [parentInode, hnone] at hp
      cases hp
    · exact ih y hy

theorem climb_length (h : Linked fs) {l : List InodeId} {x : InodeId}
    (hl : Climb fs.parentInode fs.root x l) : l.length ≤ fs.inodes.size :=
  BTreeMap.length_le_size hl.nodup (h.climb_stored hl)

end Linked

end Riscbox.Filesystem

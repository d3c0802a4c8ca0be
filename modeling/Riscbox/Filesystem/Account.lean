import Riscbox.Filesystem.Preserve

/-!
# Every write keeps the totals

The two running totals against the sums they stand for, one write at a time.
-/

namespace Riscbox.Filesystem

theorem targetLength_of_directory {kind : InodeKind} (h : kind.isDirectory = true) :
    kind.targetLength = 0 := by
  rw [kind_eq_directory h]
  rfl

theorem targetLength_of_file {kind : InodeKind} (h : kind.isFile = true) :
    kind.targetLength = 0 := by
  cases kind with
  | file body => rfl
  | directory entries nextCookie => cases h
  | symlink target => cases h

theorem bodyLength_of_directory {kind : InodeKind} (h : kind.isDirectory = true) :
    kind.bodyLength = 0 := by
  rw [kind_eq_directory h]
  rfl

namespace Accounted

variable {fs : Filesystem} {id : InodeId} {n : Inode}

theorem body_le_logicalBytes (h : Accounted fs) (hn : fs.inodes[id]? = some n) :
    n.kind.bodyLength ≤ fs.logicalBytes := by
  rw [h.logicalBytes_eq]
  exact BTreeMap.le_total (fun _ n => n.kind.bodyLength) hn

theorem entries_le_directoryEntries (h : Accounted fs) (hn : fs.inodes[id]? = some n) :
    n.kind.entries.size ≤ fs.directoryEntries := by
  rw [h.directoryEntries_eq]
  exact BTreeMap.le_total (fun _ n => n.kind.entries.size) hn

theorem directoryEntries_pos (h : Accounted fs) {parent : InodeId} {name : String}
    {e : DirectoryEntry} (he : fs.entry parent name = some e) : 1 ≤ fs.directoryEntries := by
  obtain ⟨d, hd, hentry⟩ := get_of_entry he
  have hpos := BTreeMap.size_pos_of_some hentry
  have hle := h.entries_le_directoryEntries hd
  omega

theorem congr {fs' : Filesystem} (h : Accounted fs) (hinodes : fs'.inodes = fs.inodes)
    (hbytes : fs'.logicalBytes = fs.logicalBytes)
    (hentries : fs'.directoryEntries = fs.directoryEntries)
    (hlimits : fs'.limits = fs.limits) : Accounted fs' := by
  constructor
  case logicalBytes_eq => rw [hinodes, hbytes, h.logicalBytes_eq]
  case directoryEntries_eq => rw [hinodes, hentries, h.directoryEntries_eq]
  case logicalBytes_le => rw [hbytes, hlimits]; exact h.logicalBytes_le
  case body_le =>
    intro i m hm
    rw [hinodes] at hm
    rw [hlimits]
    exact h.body_le hm
  case target_le =>
    intro i m hm
    rw [hinodes] at hm
    exact h.target_le hm
  case directoryEntries_le => rw [hentries, hlimits]; exact h.directoryEntries_le
  case inodes_le => rw [hinodes, hlimits]; exact h.inodes_le

/-- An inode is replaced by one with the same contents. -/
theorem setInode {n' : Inode} (h : Accounted fs) (hn : fs.inodes[id]? = some n)
    (hkind : n'.kind = n.kind) : Accounted (fs.setInode id n') := by
  constructor
  case logicalBytes_eq =>
    have ht := BTreeMap.total_insert_of_some (fun _ n => n.kind.bodyLength) n' hn
    have he := h.logicalBytes_eq
    rw [hkind] at ht
    show fs.logicalBytes = BTreeMap.total _ (fs.inodes.insert id n')
    omega
  case directoryEntries_eq =>
    have ht := BTreeMap.total_insert_of_some (fun _ n => n.kind.entries.size) n' hn
    have he := h.directoryEntries_eq
    rw [hkind] at ht
    show fs.directoryEntries = BTreeMap.total _ (fs.inodes.insert id n')
    omega
  case logicalBytes_le => exact h.logicalBytes_le
  case body_le =>
    intro i m hm
    rw [get_setInode] at hm
    by_cases hi : id = i
    · rw [if_pos hi] at hm
      cases hm
      rw [hkind]
      exact h.body_le hn
    · rw [if_neg hi] at hm
      exact h.body_le hm
  case target_le =>
    intro i m hm
    rw [get_setInode] at hm
    by_cases hi : id = i
    · rw [if_pos hi] at hm
      cases hm
      rw [hkind]
      exact h.target_le hn
    · rw [if_neg hi] at hm
      exact h.target_le hm
  case directoryEntries_le => exact h.directoryEntries_le
  case inodes_le =>
    show (fs.inodes.insert id n').size ≤ _
    rw [BTreeMap.size_insert_of_some _ hn]
    exact h.inodes_le

end Accounted

theorem NewEntries.entries_eq {d d' : Inode} {entries : Entries} {nextCookie : Nat}
    (h : NewEntries d d' entries nextCookie) : d'.kind.entries = entries :=
  entries_of_directory h.kind

theorem NewEntries.targetLength_eq {d d' : Inode} {entries : Entries} {nextCookie : Nat}
    (h : NewEntries d d' entries nextCookie) : d'.kind.targetLength = 0 := by
  rw [h.kind]
  rfl

theorem NewEntries.bodyLength_eq {d d' : Inode} {entries : Entries} {nextCookie : Nat}
    (h : NewEntries d d' entries nextCookie) : d'.kind.bodyLength = 0 := by
  rw [h.kind]
  rfl

/-- Lengths after the writes of a directory and of one other inode. -/
theorem length_two {fs : Filesystem} {length : InodeKind → Nat} {parent id i : InodeId}
    {d' n' m : Inode} {limit : Nat}
    (h : ∀ {i : InodeId} {n : Inode}, fs.inodes[i]? = some n → length n.kind ≤ limit)
    (hd : length d'.kind = 0) (hn : length n'.kind ≤ limit)
    (hm : ((fs.setInode parent d').setInode id n').inodes[i]? = some m) :
    length m.kind ≤ limit := by
  rw [get_two] at hm
  by_cases hi : id = i
  · rw [if_pos hi] at hm
    cases hm
    exact hn
  · rw [if_neg hi] at hm
    by_cases hp : parent = i
    · rw [if_pos hp] at hm
      cases hm
      omega
    · rw [if_neg hp] at hm
      exact h hm

theorem Creates.accounted {fs : Filesystem} {parent : InodeId} {d d' n' : Inode} {name : String}
    (c : Creates fs parent d d' name n') (h : Linked fs) (ha : Accounted fs) :
    Accounted (created fs parent d' name n') := by
  have hfresh : (fs.inodes.insert parent d')[fs.nextInode]? = none := by
    rw [BTreeMap.get_insert_of_ne, h.fresh]
    rintro rfl
    have hs := c.stored
    rw [h.fresh] at hs
    cases hs
  have hdBody := bodyLength_of_directory c.directory
  have hdBody' := c.entries.bodyLength_eq
  have hempty : n'.kind.entries.size = 0 := by
    rcases c.empty with hk | hk
    · rw [entries_of_directory hk]
      rfl
    · rw [entries_of_leaf hk]
      rfl
  have hsize : d'.kind.entries.size = d.kind.entries.size + 1 := by
    rw [c.entries.entries_eq, BTreeMap.size_insert_of_none _ c.vacant]
  constructor
  case logicalBytes_eq =>
    have ht := BTreeMap.total_insert_of_none (fun (_ : InodeId) n => n.kind.bodyLength) n' hfresh
    have ht' := BTreeMap.total_insert_of_some (fun _ n => n.kind.bodyLength) d' c.stored
    have he := ha.logicalBytes_eq
    show fs.logicalBytes + n'.kind.bodyLength =
      BTreeMap.total _ ((fs.inodes.insert parent d').insert fs.nextInode n')
    refine Eq.trans ?_ ht.symm
    omega
  case directoryEntries_eq =>
    have ht := BTreeMap.total_insert_of_none (fun (_ : InodeId) n => n.kind.entries.size) n' hfresh
    have ht' := BTreeMap.total_insert_of_some (fun _ n => n.kind.entries.size) d' c.stored
    have he := ha.directoryEntries_eq
    show fs.directoryEntries + 1 =
      BTreeMap.total _ ((fs.inodes.insert parent d').insert fs.nextInode n')
    refine Eq.trans ?_ ht.symm
    omega
  case logicalBytes_le => exact c.bytes
  case body_le => exact fun hm => length_two ha.body_le hdBody' c.body hm
  case target_le =>
    exact fun hm => length_two ha.target_le c.entries.targetLength_eq c.target hm
  case directoryEntries_le => exact c.directoryEntries
  case inodes_le =>
    show ((fs.inodes.insert parent d').insert fs.nextInode n').size ≤ max 1 fs.limits.maxInodes
    rw [BTreeMap.size_insert_of_none _ hfresh, BTreeMap.size_insert_of_some _ c.stored]
    have := c.inodes
    omega

theorem Links.accounted {fs : Filesystem} {parent id : InodeId} {d d' n n' : Inode}
    {name : String} (c : Links fs parent d d' name id n n') (ha : Accounted fs) :
    Accounted (linked fs parent d' name id n') := by
  have htarget : (fs.inodes.insert parent d')[id]? = some n := by
    rw [BTreeMap.get_insert_of_ne _ _ (Ne.symm c.ne_parent), c.target]
  have hdBody := bodyLength_of_directory c.directory
  have hdBody' := c.entries.bodyLength_eq
  have hsize : d'.kind.entries.size = d.kind.entries.size + 1 := by
    rw [c.entries.entries_eq, BTreeMap.size_insert_of_none _ c.vacant]
  constructor
  case logicalBytes_eq =>
    have ht := BTreeMap.total_insert_of_some (fun _ n => n.kind.bodyLength) n' htarget
    have ht' := BTreeMap.total_insert_of_some (fun _ n => n.kind.bodyLength) d' c.stored
    have he := ha.logicalBytes_eq
    rw [c.kind] at ht
    show fs.logicalBytes = BTreeMap.total _ ((fs.inodes.insert parent d').insert id n')
    omega
  case directoryEntries_eq =>
    have ht := BTreeMap.total_insert_of_some (fun _ n => n.kind.entries.size) n' htarget
    have ht' := BTreeMap.total_insert_of_some (fun _ n => n.kind.entries.size) d' c.stored
    have he := ha.directoryEntries_eq
    rw [c.kind] at ht
    show fs.directoryEntries + 1 = BTreeMap.total _ ((fs.inodes.insert parent d').insert id n')
    omega
  case logicalBytes_le => exact ha.logicalBytes_le
  case body_le =>
    refine fun hm => length_two ha.body_le hdBody' ?_ hm
    rw [c.kind]
    exact ha.body_le c.target
  case target_le =>
    refine fun hm => length_two ha.target_le c.entries.targetLength_eq ?_ hm
    rw [c.kind]
    exact ha.target_le c.target
  case directoryEntries_le => exact c.directoryEntries
  case inodes_le =>
    show ((fs.inodes.insert parent d').insert id n').size ≤ _
    rw [BTreeMap.size_insert_of_some _ htarget, BTreeMap.size_insert_of_some _ c.stored]
    exact ha.inodes_le

theorem Unlinks.accounted {fs : Filesystem} {parent : InodeId} {d d' n n' : Inode}
    {name : String} {e : DirectoryEntry} (c : Unlinks fs parent d d' name e n n')
    (ha : Accounted fs) : Accounted (unlinked fs parent d' name e.inode n') := by
  have htarget : (fs.inodes.insert parent d')[e.inode]? = some n := by
    rw [BTreeMap.get_insert_of_ne _ _ (Ne.symm c.ne_parent), c.target]
  have hdBody := bodyLength_of_directory (isDirectory_of_entries c.entry)
  have hdBody' := c.entries.bodyLength_eq
  have hsize : d'.kind.entries.size + 1 = d.kind.entries.size := by
    have hpos := BTreeMap.size_pos_of_some c.entry
    rw [c.entries.entries_eq, BTreeMap.size_erase_of_some c.entry]
    omega
  have hpos := ha.directoryEntries_pos c.entry_get
  constructor
  case logicalBytes_eq =>
    have ht := BTreeMap.total_insert_of_some (fun _ n => n.kind.bodyLength) n' htarget
    have ht' := BTreeMap.total_insert_of_some (fun _ n => n.kind.bodyLength) d' c.stored
    have he := ha.logicalBytes_eq
    rw [c.kind] at ht
    show fs.logicalBytes = BTreeMap.total _ ((fs.inodes.insert parent d').insert e.inode n')
    omega
  case directoryEntries_eq =>
    have ht := BTreeMap.total_insert_of_some (fun _ n => n.kind.entries.size) n' htarget
    have ht' := BTreeMap.total_insert_of_some (fun _ n => n.kind.entries.size) d' c.stored
    have he := ha.directoryEntries_eq
    rw [c.kind] at ht
    show fs.directoryEntries - 1 =
      BTreeMap.total _ ((fs.inodes.insert parent d').insert e.inode n')
    omega
  case logicalBytes_le => exact ha.logicalBytes_le
  case body_le =>
    refine fun hm => length_two ha.body_le hdBody' ?_ hm
    rw [c.kind]
    exact ha.body_le c.target
  case target_le =>
    refine fun hm => length_two ha.target_le c.entries.targetLength_eq ?_ hm
    rw [c.kind]
    exact ha.target_le c.target
  case directoryEntries_le =>
    have hle := ha.directoryEntries_le
    show fs.directoryEntries - 1 ≤ fs.limits.maxDirectoryEntries
    omega
  case inodes_le =>
    show ((fs.inodes.insert parent d').insert e.inode n').size ≤ _
    rw [BTreeMap.size_insert_of_some _ htarget, BTreeMap.size_insert_of_some _ c.stored]
    exact ha.inodes_le

theorem Frees.accounted {fs : Filesystem} {id : InodeId} {n : Inode} (c : Frees fs id n)
    (h : Linked fs) (ha : Accounted fs) : Accounted (freed fs id n) := by
  have hempty : n.kind.entries.size = 0 := by
    have hnone := c.no_entries h
    cases hdir : n.kind.isDirectory with
    | true =>
      rw [(h.directory_detached c.stored hdir c.linkCount).2]
      rfl
    | false =>
      rw [entries_of_leaf hdir]
      rfl
  have hle := ha.body_le_logicalBytes c.stored
  constructor
  case logicalBytes_eq =>
    have ht := BTreeMap.total_erase_of_some (fun _ n => n.kind.bodyLength) c.stored
    have he := ha.logicalBytes_eq
    show fs.logicalBytes - n.kind.bodyLength = BTreeMap.total _ (fs.inodes.erase id)
    omega
  case directoryEntries_eq =>
    have ht := BTreeMap.total_erase_of_some (fun _ n => n.kind.entries.size) c.stored
    have he := ha.directoryEntries_eq
    show fs.directoryEntries = BTreeMap.total _ (fs.inodes.erase id)
    omega
  case logicalBytes_le =>
    have hmax := ha.logicalBytes_le
    show fs.logicalBytes - n.kind.bodyLength ≤ fs.limits.maxTreeBytes
    omega
  case body_le =>
    intro i m hm
    rw [Frees.get_eq] at hm
    by_cases hi : id = i
    · rw [if_pos hi] at hm
      cases hm
    · rw [if_neg hi] at hm
      exact ha.body_le hm
  case target_le =>
    intro i m hm
    rw [Frees.get_eq] at hm
    by_cases hi : id = i
    · rw [if_pos hi] at hm
      cases hm
    · rw [if_neg hi] at hm
      exact ha.target_le hm
  case directoryEntries_le => exact ha.directoryEntries_le
  case inodes_le =>
    have hmax := ha.inodes_le
    show (fs.inodes.erase id).size ≤ max 1 fs.limits.maxInodes
    rw [BTreeMap.size_erase_of_some c.stored]
    omega

theorem Moves.length_le {fs : Filesystem} {length : InodeKind → Nat} {limit : Nat}
    {oldParent newParent i : InodeId} {d d₁ d' d₂ n n' m : Inode} {oldName newName : String}
    {e : DirectoryEntry} {cookie nextCookie : Nat} (c : Moves fs oldParent d d₁ oldName
      newParent d' d₂ newName e cookie nextCookie n n')
    (h : ∀ {i : InodeId} {n : Inode}, fs.inodes[i]? = some n → length n.kind ≤ limit)
    (hd₁ : length d₁.kind = 0) (hd₂ : length d₂.kind = 0)
    (hm : (moved fs oldParent d₁ oldName newParent d₂ newName e.inode n').inodes[i]? = some m) :
    length m.kind ≤ limit := by
  have hold : ∀ {i : InodeId} {n : Inode}, (fs.setInode oldParent d₁).inodes[i]? = some n →
      length n.kind ≤ limit := by
    intro j m' hm'
    rw [get_setInode] at hm'
    by_cases hj : oldParent = j
    · rw [if_pos hj] at hm'
      cases hm'
      omega
    · rw [if_neg hj] at hm'
      exact h hm'
  have hnew : length n'.kind ≤ limit := by
    rw [c.kind]
    exact h c.target
  exact length_two hold hd₂ hnew hm

theorem Moves.accounted {fs : Filesystem} {oldParent newParent : InodeId}
    {d d₁ d' d₂ n n' : Inode} {oldName newName : String} {e : DirectoryEntry}
    {cookie nextCookie : Nat} (c : Moves fs oldParent d d₁ oldName newParent d' d₂ newName e
      cookie nextCookie n n') (h : Linked fs) (ha : Accounted fs) :
    Accounted (moved fs oldParent d₁ oldName newParent d₂ newName e.inode n') := by
  have hreceiver : (fs.inodes.insert oldParent d₁)[newParent]? = some d' := c.stored'
  have htarget : ((fs.inodes.insert oldParent d₁).insert newParent d₂)[e.inode]? = some n := by
    rw [BTreeMap.get_insert_of_ne _ _ (Ne.symm c.ne_newParent),
      BTreeMap.get_insert_of_ne _ _ (Ne.symm (c.ne_oldParent h)), c.target]
  have hdBody := bodyLength_of_directory c.old_directory
  have hd₁Body := c.entries.bodyLength_eq
  have hd'Body := bodyLength_of_directory c.directory
  have hd₂Body := c.entries'.bodyLength_eq
  have hvacant : d'.kind.entries[newName]? = none := by
    have hb := c.entry_between newParent newName
    rw [entry_of_get c.stored', c.vacant] at hb
    rw [hb]
    exact ite_self none
  have hsize₁ : d₁.kind.entries.size + 1 = d.kind.entries.size := by
    have hpos := BTreeMap.size_pos_of_some c.entry
    rw [c.entries.entries_eq, BTreeMap.size_erase_of_some c.entry]
    omega
  have hsize₂ : d₂.kind.entries.size = d'.kind.entries.size + 1 := by
    rw [c.entries'.entries_eq, BTreeMap.size_insert_of_none _ hvacant]
  constructor
  case logicalBytes_eq =>
    have ht₁ := BTreeMap.total_insert_of_some (fun _ n => n.kind.bodyLength) d₁ c.stored
    have ht₂ := BTreeMap.total_insert_of_some (fun _ n => n.kind.bodyLength) d₂ hreceiver
    have ht₃ := BTreeMap.total_insert_of_some (fun _ n => n.kind.bodyLength) n' htarget
    have he := ha.logicalBytes_eq
    rw [c.kind] at ht₃
    show fs.logicalBytes = BTreeMap.total _
      (((fs.inodes.insert oldParent d₁).insert newParent d₂).insert e.inode n')
    omega
  case directoryEntries_eq =>
    have ht₁ := BTreeMap.total_insert_of_some (fun _ n => n.kind.entries.size) d₁ c.stored
    have ht₂ := BTreeMap.total_insert_of_some (fun _ n => n.kind.entries.size) d₂ hreceiver
    have ht₃ := BTreeMap.total_insert_of_some (fun _ n => n.kind.entries.size) n' htarget
    have he := ha.directoryEntries_eq
    rw [c.kind] at ht₃
    show fs.directoryEntries = BTreeMap.total _
      (((fs.inodes.insert oldParent d₁).insert newParent d₂).insert e.inode n')
    omega
  case logicalBytes_le => exact ha.logicalBytes_le
  case body_le => exact fun hm => c.length_le ha.body_le hd₁Body hd₂Body hm
  case target_le =>
    exact fun hm => c.length_le ha.target_le c.entries.targetLength_eq
      c.entries'.targetLength_eq hm
  case directoryEntries_le => exact ha.directoryEntries_le
  case inodes_le =>
    show (((fs.inodes.insert oldParent d₁).insert newParent d₂).insert e.inode n').size ≤ _
    rw [BTreeMap.size_insert_of_some _ htarget, BTreeMap.size_insert_of_some _ hreceiver,
      BTreeMap.size_insert_of_some _ c.stored]
    exact ha.inodes_le

theorem Rewrites.accounted {fs : Filesystem} {id : InodeId} {n n' : Inode}
    (c : Rewrites fs id n n') (ha : Accounted fs) : Accounted (rewritten fs id n n') := by
  have hle := ha.body_le_logicalBytes c.stored
  have hempty : n.kind.entries = ∅ := entries_of_leaf (isDirectory_of_isFile c.file)
  have hempty' : n'.kind.entries = ∅ := entries_of_leaf (isDirectory_of_isFile c.file')
  constructor
  case logicalBytes_eq =>
    have ht := BTreeMap.total_insert_of_some (fun _ n => n.kind.bodyLength) n' c.stored
    have he := ha.logicalBytes_eq
    show fs.logicalBytes - n.kind.bodyLength + n'.kind.bodyLength =
      BTreeMap.total _ (fs.inodes.insert id n')
    omega
  case directoryEntries_eq =>
    have ht := BTreeMap.total_insert_of_some (fun _ n => n.kind.entries.size) n' c.stored
    have he := ha.directoryEntries_eq
    rw [hempty, hempty'] at ht
    show fs.directoryEntries = BTreeMap.total _ (fs.inodes.insert id n')
    omega
  case logicalBytes_le => exact c.bytes
  case body_le =>
    intro i m hm
    have hm' : (fs.setInode id n').inodes[i]? = some m := hm
    rw [get_setInode] at hm'
    by_cases hi : id = i
    · rw [if_pos hi] at hm'
      cases hm'
      exact c.body
    · rw [if_neg hi] at hm'
      exact ha.body_le hm'
  case target_le =>
    intro i m hm
    have hm' : (fs.setInode id n').inodes[i]? = some m := hm
    rw [get_setInode] at hm'
    by_cases hi : id = i
    · rw [if_pos hi] at hm'
      cases hm'
      rw [targetLength_of_file c.file']
      exact Nat.zero_le _
    · rw [if_neg hi] at hm'
      exact ha.target_le hm'
  case directoryEntries_le => exact ha.directoryEntries_le
  case inodes_le =>
    show (fs.inodes.insert id n').size ≤ _
    rw [BTreeMap.size_insert_of_some _ c.stored]
    exact ha.inodes_le

end Riscbox.Filesystem

import Riscbox.Filesystem.Account

/-!
# Ordinary writes

Everything a mutator does to the tree, apart from a reset and from counting fids, is a
sequence of the writes below.
-/

namespace Riscbox.Filesystem

/-- Two states with the same tree, counters and quotas. -/
structure SameTree (fs fs' : Filesystem) : Prop where
  identity : fs'.identity = fs.identity
  inodes : fs'.inodes = fs.inodes
  links : fs'.links = fs.links
  root : fs'.root = fs.root
  nextInode : fs'.nextInode = fs.nextInode
  generation : fs'.generation = fs.generation
  limits : fs'.limits = fs.limits
  logicalBytes : fs'.logicalBytes = fs.logicalBytes
  directoryEntries : fs'.directoryEntries = fs.directoryEntries

theorem SameTree.refl (fs : Filesystem) : SameTree fs fs := ⟨rfl, rfl, rfl, rfl, rfl, rfl, rfl, rfl, rfl⟩

/-- Locks are only dropped. -/
def DropsLocks (fs fs' : Filesystem) : Prop :=
  ∃ keep : ByteRangeLock → Bool, fs'.locks = fs.locks.filter keep

theorem DropsLocks.of_eq {fs fs' : Filesystem} (h : fs'.locks = fs.locks) : DropsLocks fs fs' :=
  ⟨fun _ => true, by rw [h, List.filter_true]⟩

theorem DropsLocks.trans {fs₁ fs₂ fs₃ : Filesystem} (h : DropsLocks fs₁ fs₂)
    (h' : DropsLocks fs₂ fs₃) : DropsLocks fs₁ fs₃ := by
  obtain ⟨keep, hkeep⟩ := h
  obtain ⟨keep', hkeep'⟩ := h'
  exact ⟨fun l => keep' l && keep l, by rw [hkeep', hkeep, List.filter_filter]⟩

/-- An inode rewritten in place, with its contents and fids. -/
structure Adjusts (fs : Filesystem) (id : InodeId) (n n' : Inode) : Prop where
  stored : fs.inodes[id]? = some n
  place : SamePlace n n'
  kind : n'.kind = n.kind
  fidRefs : n'.fidRefs = n.fidRefs

inductive Write (fs : Filesystem) : Filesystem → Prop
  | aside {fs' : Filesystem} (tree : SameTree fs fs') (session : fs.nextSession ≤ fs'.nextSession)
      (locks : DropsLocks fs fs') : Write fs fs'
  | adjust {id : InodeId} {n n' : Inode} (c : Adjusts fs id n n') : Write fs (fs.setInode id n')
  | create {parent : InodeId} {d d' : Inode} {name : String} {n' : Inode}
      (c : Creates fs parent d d' name n') : Write fs (created fs parent d' name n')
  | link {parent : InodeId} {d d' : Inode} {name : String} {id : InodeId} {n n' : Inode}
      (c : Links fs parent d d' name id n n') : Write fs (linked fs parent d' name id n')
  | unlink {parent : InodeId} {d d' : Inode} {name : String} {e : DirectoryEntry} {n n' : Inode}
      (c : Unlinks fs parent d d' name e n n') (kept : n'.linkCount = 0 → 0 < n'.fidRefs) :
      Write fs (unlinked fs parent d' name e.inode n')
  | remove {parent : InodeId} {d d' : Inode} {name : String} {e : DirectoryEntry} {n n' : Inode}
      (c : Unlinks fs parent d d' name e n n') (linkCount : n'.linkCount = 0)
      (fidRefs : n'.fidRefs = 0) :
      Write fs (freed (unlinked fs parent d' name e.inode n') e.inode n')
  | move {oldParent : InodeId} {d d₁ : Inode} {oldName : String} {newParent : InodeId}
      {d' d₂ : Inode} {newName : String} {e : DirectoryEntry} {cookie nextCookie : Nat}
      {n n' : Inode}
      (c : Moves fs oldParent d d₁ oldName newParent d' d₂ newName e cookie nextCookie n n') :
      Write fs (moved fs oldParent d₁ oldName newParent d₂ newName e.inode n')
  | rewrite {id : InodeId} {n n' : Inode} (c : Rewrites fs id n n') :
      Write fs (rewritten fs id n n')

abbrev Writes : Filesystem → Filesystem → Prop := Relation.ReflTransGen Write

/-! ## Keeping the tree well-formed -/

theorem SameTree.wellFormed {fs fs' : Filesystem} (t : SameTree fs fs') (h : WellFormed fs) :
    WellFormed fs' where
  tree :=
    { h.tree.toLinked.congr t.inodes t.links t.root t.nextInode with
      retained := by
        intro i n hn
        rw [t.inodes] at hn
        exact h.tree.retained hn }
  account := h.account.congr t.inodes t.logicalBytes t.directoryEntries t.limits

theorem WellFormed.linked {fs : Filesystem} (h : WellFormed fs) : Linked fs := h.tree.toLinked

/-- No stored inode is without links and fids. -/
def Retained (fs : Filesystem) : Prop :=
  ∀ (i : InodeId) (n : Inode), fs.inodes[i]? = some n → n.linkCount = 0 → 0 < n.fidRefs

theorem Retained.setInode {fs fs' : Filesystem} (h : Retained fs) (id : InodeId) (n' : Inode)
    (hn : n'.linkCount = 0 → 0 < n'.fidRefs) (hinodes : fs'.inodes = (fs.setInode id n').inodes) :
    Retained fs' := by
  intro i m hm
  rw [hinodes, get_setInode] at hm
  by_cases hi : id = i
  · rw [if_pos hi] at hm
    cases hm
    exact hn
  · rw [if_neg hi] at hm
    exact h i m hm

theorem Retained.samePlace {fs fs' : Filesystem} {id : InodeId} {n n' : Inode} (h : Retained fs)
    (hn : fs.inodes[id]? = some n) (hplace : SamePlace n n') (hrefs : n'.fidRefs = n.fidRefs)
    (hinodes : fs'.inodes = (fs.setInode id n').inodes) : Retained fs' := by
  refine h.setInode id n' ?_ hinodes
  rw [hplace.linkCount, hrefs]
  exact h id n hn

theorem Namespace.retains {fs : Filesystem} (h : Namespace fs) : Retained fs :=
  fun _ _ hn => h.retained hn

theorem WellFormed.of_parts {fs : Filesystem} (h : Linked fs) (hr : Retained fs)
    (ha : Accounted fs) : WellFormed fs where
  tree := { h with retained := fun hn => hr _ _ hn }
  account := ha

theorem Unlinks.frees {fs : Filesystem} {parent : InodeId} {d d' n n' : Inode} {name : String}
    {e : DirectoryEntry} (c : Unlinks fs parent d d' name e n n') (h : Linked fs)
    (hcount : n'.linkCount = 0) : Frees (unlinked fs parent d' name e.inode n') e.inode n' where
  stored := Unlinks.get_self
  linkCount := hcount
  ne_root := h.entry_ne_root c.entry_get

/-- A write by its preservation of the three parts. -/
theorem Write.wellFormed {fs fs' : Filesystem} (w : Write fs fs') (h : WellFormed fs) :
    WellFormed fs' := by
  have hr := h.tree.retains
  cases w with
  | aside tree session locks => exact tree.wellFormed h
  | @adjust id n n' c =>
    refine .of_parts (h.linked.setInode c.stored c.place (by rw [c.kind])) ?_
      (h.account.setInode c.stored c.kind)
    exact hr.samePlace c.stored c.place c.fidRefs rfl
  | @create parent d d' name n' c =>
    refine .of_parts (c.keeps h.linked) ?_ (c.accounted h.linked h.account)
    have hd : Retained (fs.setInode parent d') :=
      hr.samePlace c.stored c.entries.place c.entries.fidRefs rfl
    refine hd.setInode fs.nextInode n' ?_ rfl
    intro h0
    rw [c.linkCount] at h0
    cases h0
  | @link parent d d' name id n n' c =>
    refine .of_parts (c.keeps h.linked) ?_ (c.accounted h.account)
    have hd : Retained (fs.setInode parent d') :=
      hr.samePlace c.stored c.entries.place c.entries.fidRefs rfl
    refine hd.setInode id n' ?_ rfl
    intro h0
    rw [c.linkCount] at h0
    cases h0
  | @unlink parent d d' name e n n' c kept =>
    refine .of_parts (c.keeps h.linked) ?_ (c.accounted h.account)
    have hd : Retained (fs.setInode parent d') :=
      hr.samePlace c.stored c.entries.place c.entries.fidRefs rfl
    exact hd.setInode e.inode n' kept rfl
  | @remove parent d d' name e n n' c hcount hrefs =>
    have hf := c.frees h.linked hcount
    have hl := c.keeps h.linked
    have hd : Retained (fs.setInode parent d') :=
      hr.samePlace c.stored c.entries.place c.entries.fidRefs rfl
    refine .of_parts (hf.keeps hl) ?_ (hf.accounted hl (c.accounted h.account))
    intro i m hm
    rw [Frees.get_eq] at hm
    by_cases hi : e.inode = i
    · rw [if_pos hi] at hm
      cases hm
    · rw [if_neg hi] at hm
      refine hd i m ?_
      have hget : ((fs.setInode parent d').setInode e.inode n').inodes[i]? = some m := hm
      rw [get_setInode, if_neg hi] at hget
      exact hget
  | @move oldParent d d₁ oldName newParent d' d₂ newName e cookie nextCookie n n' c =>
    refine .of_parts (c.keeps h.linked) ?_ (c.accounted h.linked h.account)
    have h₁ : Retained (fs.setInode oldParent d₁) :=
      hr.samePlace c.stored c.entries.place c.entries.fidRefs rfl
    have h₂ : Retained ((fs.setInode oldParent d₁).setInode newParent d₂) :=
      h₁.samePlace c.stored' c.entries'.place c.entries'.fidRefs rfl
    refine h₂.setInode e.inode n' ?_ rfl
    rw [c.linkCount, c.fidRefs]
    exact hr e.inode n c.target
  | @rewrite id n n' c =>
    refine .of_parts ?_ ?_ (c.accounted h.account)
    · have hentries : n'.kind.entries = n.kind.entries := by
        rw [entries_of_leaf (isDirectory_of_isFile c.file),
          entries_of_leaf (isDirectory_of_isFile c.file')]
      exact (h.linked.setInode c.stored c.place hentries).congr rfl rfl rfl rfl
    · exact hr.samePlace c.stored c.place c.fidRefs rfl

theorem Write.dropsLocks {fs fs' : Filesystem} (w : Write fs fs') : DropsLocks fs fs' := by
  cases w with
  | aside tree session locks => exact locks
  | remove c hcount hrefs => exact ⟨_, rfl⟩
  | adjust c => exact .of_eq rfl
  | create c => exact .of_eq rfl
  | link c => exact .of_eq rfl
  | unlink c kept => exact .of_eq rfl
  | move c => exact .of_eq rfl
  | rewrite c => exact .of_eq rfl

theorem Writes.wellFormed {fs fs' : Filesystem} (w : Writes fs fs') (h : WellFormed fs) :
    WellFormed fs' := by
  induction w with
  | refl => exact h
  | tail _ w ih => exact w.wellFormed ih

theorem Writes.dropsLocks {fs fs' : Filesystem} (w : Writes fs fs') : DropsLocks fs fs' := by
  induction w with
  | refl => exact .of_eq rfl
  | tail _ w ih => exact ih.trans w.dropsLocks

end Riscbox.Filesystem

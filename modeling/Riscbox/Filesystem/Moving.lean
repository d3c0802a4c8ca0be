import Riscbox.Filesystem.Cleared
import Riscbox.Filesystem.Naming

/-!
# The effect of a rename

A rename carries an entry, with everything below it, to another place.  Paths through
the old entry go through the new one, and no other path changes.
-/

namespace Riscbox.Filesystem

/-! ## Lookups in two namespaces -/

theorem lookupParts_append_ok {fs : Filesystem} {c d : InodeId} {names : List String}
    (h : fs.lookupParts c names = .ok d) (rest : List String) :
    fs.lookupParts c (names ++ rest) = fs.lookupParts d rest := by
  induction names generalizing c with
  | nil => rw [List.nil_append, lookupParts_nil.mp h]
  | cons name names ih =>
    obtain ⟨e, he, h⟩ := lookupParts_cons.mp h
    obtain ⟨n, hn, hname⟩ := get_of_entry he
    rw [List.cons_append, lookupParts, inodeOf_of_get hn, Outcome.ok_bind,
      kind_eq_directory (isDirectory_of_entries hname)]
    dsimp only
    rw [hname, Outcome.okOr_some, Outcome.ok_bind]
    exact ih h

theorem lookupParts_of_entry {fs : Filesystem} {p : InodeId} {name : String} {e : DirectoryEntry}
    (he : fs.entry p name = some e) (rest : List String) :
    fs.lookupParts p (name :: rest) = fs.lookupParts e.inode rest := by
  have hname : fs.lookupParts p [name] = .ok e.inode :=
    lookupParts_cons.mpr ⟨e, he, lookupParts_nil.mpr rfl⟩
  exact lookupParts_append_ok hname rest

/-- Inodes stored on both sides are of the same kind. -/
def SameKinds (fs fs' : Filesystem) : Prop :=
  ∀ (i : InodeId) (n n' : Inode), fs.inodes[i]? = some n → fs'.inodes[i]? = some n' →
    n'.kind.isDirectory = n.kind.isDirectory

/-- A walk that meets the same entries in both namespaces ends the same. -/
theorem lookupParts_walk {fs fs' : Filesystem} (h : Linked fs) (h' : Linked fs')
    (hkinds : SameKinds fs fs') : ∀ {names : List String} {c : InodeId} {n n' : Inode},
      fs.inodes[c]? = some n → fs'.inodes[c]? = some n' →
      (∀ init m rest d, names = init ++ m :: rest → fs.lookupParts c init = .ok d →
        fs'.entry d m = fs.entry d m) →
      fs'.lookupParts c names = fs.lookupParts c names := by
  intro names
  induction names with
  | nil => intro c n n' _ _ _; rfl
  | cons name names ih =>
    intro c n n' hn hn' hsame
    have hentry : fs'.entry c name = fs.entry c name :=
      hsame [] name names c rfl (lookupParts_nil.mpr rfl)
    have hkind := hkinds c n n' hn hn'
    cases hdir : n.kind.isDirectory with
    | false =>
      rw [lookupParts, lookupParts, inodeOf_of_get hn, inodeOf_of_get hn', Outcome.ok_bind,
        Outcome.ok_bind]
      rw [hdir] at hkind
      cases hk : n.kind with
      | directory entries nextCookie => rw [hk] at hdir; cases hdir
      | file body =>
        cases hk' : n'.kind with
        | directory entries nextCookie => rw [hk'] at hkind; cases hkind
        | file body => rfl
        | symlink target => rfl
      | symlink target =>
        cases hk' : n'.kind with
        | directory entries nextCookie => rw [hk'] at hkind; cases hkind
        | file body => rfl
        | symlink target => rfl
    | true =>
      rw [hdir] at hkind
      cases he : fs.entry c name with
      | none =>
        rw [he] at hentry
        rw [entry_of_get hn] at he
        rw [entry_of_get hn'] at hentry
        rw [lookupParts, lookupParts, inodeOf_of_get hn, inodeOf_of_get hn', Outcome.ok_bind,
          Outcome.ok_bind, kind_eq_directory hdir, kind_eq_directory hkind]
        dsimp only
        rw [he, hentry]
        rfl
      | some e =>
        rw [he] at hentry
        obtain ⟨m, hm⟩ := h.entry_stored he
        obtain ⟨m', hm'⟩ := h'.entry_stored hentry
        rw [lookupParts_of_entry he, lookupParts_of_entry hentry]
        refine ih hm hm' fun init k rest d hsplit hd => ?_
        refine hsame (name :: init) k rest d (by rw [hsplit, List.cons_append]) ?_
        rw [lookupParts_of_entry he]
        exact hd

namespace Linked

variable {fs : Filesystem} {x : InodeId} {l : List InodeId}

/-- The nodes of a climb are directories. -/
theorem climb_directory (h : Linked fs) (hl : Climb fs.parentInode fs.root x l) :
    ∀ y ∈ l, ∃ n, fs.inodes[y]? = some n ∧ n.kind.isDirectory = true := by
  induction hl with
  | root =>
    intro y hy
    obtain ⟨n, hn, hdir, -⟩ := h.root_stored
    rw [List.mem_singleton.mp hy]
    exact ⟨n, hn, hdir⟩
  | @up x p l hne hp _ ih =>
    intro y hy
    rcases List.mem_cons.mp hy with rfl | hy
    · rw [parentInode, Option.bind_eq_some_iff] at hp
      obtain ⟨n, hn, hpar⟩ := hp
      refine ⟨n, hn, ?_⟩
      by_contra hleaf
      rw [h.leaf_parent hn (by simpa using hleaf)] at hpar
      cases hpar
    · exact ih y hy

/-- What an entry names does not lead back to the directory of the entry. -/
theorem not_above (h : Linked fs) {p : InodeId} {name : String} {e : DirectoryEntry}
    (he : fs.entry p name = some e) (names : List String) :
    fs.lookupParts e.inode names ≠ .ok p := by
  intro hback
  obtain ⟨l, hl, -⟩ := h.climb_of_entry he
  have hmem := h.mem_climb hl hback
  obtain ⟨n, hn, hdir⟩ := h.climb_directory hl e.inode hmem
  obtain ⟨-, hpar, -⟩ := h.directory_entry he hn hdir
  have hup := Climb.up (h.entry_ne_root he) (by rw [parentInode_of_get hn, hpar]) hl
  exact (List.nodup_cons.mp hup.nodup).1 hmem

end Linked

/-! ## An entry in another place -/

/-- An entry was carried to another place, over what was there. -/
structure Carries (fs fs' : Filesystem) (oldParent : InodeId) (oldName : String)
    (newParent : InodeId) (newName : String) (e : DirectoryEntry) : Prop where
  linked : Linked fs
  linked' : Linked fs'
  root : fs'.root = fs.root
  source : fs.entry oldParent oldName = some e
  other : ∀ e', fs.entry newParent newName = some e' → e'.inode ≠ e.inode
  entry_eq : ∃ cookie, ∀ p m, fs'.entry p m =
    if p = newParent ∧ m = newName then some { inode := e.inode, cookie := cookie }
    else if p = oldParent ∧ m = oldName then none else fs.entry p m
  kinds : SameKinds fs fs'
  receiver : ∃ l, Climb fs.parentInode fs.root newParent l ∧ e.inode ∉ l
  empty : ∀ e' m, fs.entry newParent newName = some e' → fs.entry e'.inode m = none

namespace Carries

variable {fs fs' : Filesystem} {oldParent newParent : InodeId} {oldName newName : String}
  {e : DirectoryEntry} {oldDir newDir names : List String}

theorem entry_new (c : Carries fs fs' oldParent oldName newParent newName e) :
    ∃ e', fs'.entry newParent newName = some e' ∧ e'.inode = e.inode := by
  obtain ⟨cookie, hentry⟩ := c.entry_eq
  refine ⟨{ inode := e.inode, cookie := cookie }, ?_, rfl⟩
  rw [hentry, if_pos ⟨rfl, rfl⟩]

theorem entry_other (c : Carries fs fs' oldParent oldName newParent newName e) {p : InodeId}
    {m : String} (hnew : ¬(p = newParent ∧ m = newName)) (hold : ¬(p = oldParent ∧ m = oldName)) :
    fs'.entry p m = fs.entry p m := by
  obtain ⟨cookie, hentry⟩ := c.entry_eq
  rw [hentry, if_neg hnew, if_neg hold]

theorem stored (c : Carries fs fs' oldParent oldName newParent newName e) :
    (∃ n, fs.inodes[e.inode]? = some n) ∧ ∃ n', fs'.inodes[e.inode]? = some n' := by
  obtain ⟨e', he', hi⟩ := c.entry_new
  refine ⟨c.linked.entry_stored c.source, ?_⟩
  rw [← hi]
  exact c.linked'.entry_stored he'

theorem root_stored (c : Carries fs fs' oldParent oldName newParent newName e) :
    (∃ n, fs.inodes[fs.root]? = some n) ∧ ∃ n', fs'.inodes[fs.root]? = some n' := by
  obtain ⟨n, hn, -⟩ := c.linked.root_stored
  obtain ⟨n', hn', -⟩ := c.linked'.root_stored
  rw [c.root] at hn'
  exact ⟨⟨n, hn⟩, n', hn'⟩

/-- The new place is not below the entry. -/
theorem apart (c : Carries fs fs' oldParent oldName newParent newName e) (names : List String) :
    fs.lookupParts e.inode names ≠ .ok newParent := by
  intro hbelow
  obtain ⟨l, hl, hnot⟩ := c.receiver
  exact hnot (c.linked.mem_climb hl hbelow)

/-- Below the entry nothing changes. -/
theorem below (c : Carries fs fs' oldParent oldName newParent newName e) (rest : List String) :
    fs'.lookupParts e.inode rest = fs.lookupParts e.inode rest := by
  obtain ⟨⟨n, hn⟩, n', hn'⟩ := c.stored
  refine lookupParts_walk c.linked c.linked' c.kinds hn hn' fun init m _ d _ hd => ?_
  refine c.entry_other ?_ ?_
  · rintro ⟨rfl, -⟩
    exact c.apart init hd
  · rintro ⟨rfl, -⟩
    exact c.linked.not_above c.source init hd

theorem newDir_unique (c : Carries fs fs' oldParent oldName newParent newName e)
    (hdir : fs.lookupParts fs.root newDir = .ok newParent)
    (hnames : fs.lookupParts fs.root names = .ok newParent) : names = newDir := by
  obtain ⟨l, hl, -⟩ := c.receiver
  exact c.linked.names_unique hl hnames hdir

theorem oldDir_unique (c : Carries fs fs' oldParent oldName newParent newName e)
    (hdir : fs.lookupParts fs.root oldDir = .ok oldParent)
    (hnames : fs.lookupParts fs.root names = .ok oldParent) : names = oldDir := by
  obtain ⟨l, hl, -⟩ := c.linked.climb_of_entry c.source
  exact c.linked.names_unique hl hnames hdir

/-- A path through neither entry leads where it led before. -/
theorem elsewhere (c : Carries fs fs' oldParent oldName newParent newName e)
    (hold : fs.lookupParts fs.root oldDir = .ok oldParent)
    (hnew : fs.lookupParts fs.root newDir = .ok newParent)
    (hnotOld : ¬(oldDir ++ [oldName]) <+: names) (hnotNew : ¬(newDir ++ [newName]) <+: names) :
    fs'.lookupParts fs.root names = fs.lookupParts fs.root names := by
  obtain ⟨⟨n, hn⟩, n', hn'⟩ := c.root_stored
  refine lookupParts_walk c.linked c.linked' c.kinds hn hn' fun init m rest d hsplit hd => ?_
  refine c.entry_other ?_ ?_
  · rintro ⟨rfl, rfl⟩
    rw [c.newDir_unique hnew hd] at hsplit
    exact hnotNew ⟨rest, by rw [hsplit, List.append_assoc, List.singleton_append]⟩
  · rintro ⟨rfl, rfl⟩
    rw [c.oldDir_unique hold hd] at hsplit
    exact hnotOld ⟨rest, by rw [hsplit, List.append_assoc, List.singleton_append]⟩

theorem newDir_kept (c : Carries fs fs' oldParent oldName newParent newName e)
    (hold : fs.lookupParts fs.root oldDir = .ok oldParent)
    (hnew : fs.lookupParts fs.root newDir = .ok newParent) :
    fs'.lookupParts fs.root newDir = .ok newParent := by
  rw [c.elsewhere hold hnew, hnew]
  · rintro ⟨rest, hsplit⟩
    rw [← hsplit, List.append_assoc, List.singleton_append, lookupParts_append_ok hold,
      lookupParts_of_entry c.source] at hnew
    exact c.apart rest hnew
  · rintro ⟨rest, hsplit⟩
    have hlength := congrArg List.length hsplit
    rw [List.length_append, List.length_append, List.length_singleton] at hlength
    omega

/-- A path through the old entry goes through the new one. -/
theorem moved (c : Carries fs fs' oldParent oldName newParent newName e)
    (hold : fs.lookupParts fs.root oldDir = .ok oldParent)
    (hnew : fs.lookupParts fs.root newDir = .ok newParent) (rest : List String) :
    fs'.lookupParts fs.root (newDir ++ newName :: rest) =
      fs.lookupParts fs.root (oldDir ++ oldName :: rest) := by
  obtain ⟨e', he', hi⟩ := c.entry_new
  rw [lookupParts_append_ok (c.newDir_kept hold hnew), lookupParts_of_entry he', hi, c.below,
    lookupParts_append_ok hold, lookupParts_of_entry c.source]

end Carries

/-! ## What a rename does -/

theorem Pruned.sameKinds {fs fs' : Filesystem} (p : Pruned fs fs') : SameKinds fs fs' := by
  intro i n n' hn hn'
  rcases p.stored i n hn with ⟨hgone, _⟩ | ⟨m, hm, hsame⟩
  · rw [hn'] at hgone
    cases hgone
  · rw [hn'] at hm
    cases hm
    exact hsame.directory

theorem Replaced.pruned {fs s : Filesystem} {parent : InodeId} {name : String}
    (r : Replaced fs parent name s) (h : Linked fs) : Pruned fs s := by
  rcases r with ⟨_, rfl⟩ | ⟨e, u, hr, he⟩
  · exact .refl s
  · exact (hr.pruned h).trans he.pruned

/-- Every inode but the moved one keeps its place, and none is forgotten. -/
theorem Moved.stored {s t : Filesystem} {oldParent newParent : InodeId}
    {oldName newName : String} {e : DirectoryEntry}
    (m : Moved s oldParent oldName newParent newName e t) (h : Linked s) {i : InodeId} :
    (s.inodes[i]? = none ∧ t.inodes[i]? = none) ∨
      ∃ n n', s.inodes[i]? = some n ∧ t.inodes[i]? = some n' ∧ n'.linkCount = n.linkCount ∧
        n'.kind.isDirectory = n.kind.isDirectory := by
  obtain ⟨d, d₁, d', d₂, cookie, nextCookie, n, n', c, rfl⟩ := m
  by_cases hi : i = e.inode
  · subst hi
    exact .inr ⟨n, n', c.target, Moves.get_self, c.linkCount, by rw [c.kind]⟩
  · rcases c.sameExcept h i hi with hnone | ⟨n₁, n₂, h₁, h₂, hplace, -⟩
    · exact .inl hnone
    · exact .inr ⟨n₁, n₂, h₁, h₂, hplace.linkCount, hplace.directory⟩

theorem Replaced.empty {fs s : Filesystem} {parent : InodeId} {name : String}
    (r : Replaced fs parent name s) {e : DirectoryEntry} (he : fs.entry parent name = some e)
    (m : String) : fs.entry e.inode m = none := by
  rcases r with ⟨hnone, _⟩ | ⟨e', u, hr, _⟩
  · rw [he] at hnone
    cases hnone
  · have hentry := hr.entry_get
    rw [he] at hentry
    cases hentry
    exact hr.no_entries m

theorem SameTree.linked {fs fs' : Filesystem} (t : SameTree fs fs') (h : Linked fs) :
    Linked fs' := h.congr t.inodes t.links t.root t.nextInode

section Rename

variable {fs s t fs' : Filesystem} {oldParent newParent : InodeId} {oldName newName : String}
  {e : DirectoryEntry} {d' n : Inode}

theorem Moved.carries (m : Moved s oldParent oldName newParent newName e t)
    (r : Replaced fs newParent newName s) (hsame : SameTree t fs') (h : WellFormed fs)
    (hsource : fs.entry oldParent oldName = some e)
    (hother : ∀ e', fs.entry newParent newName = some e' → e'.inode ≠ e.inode) :
    Carries fs fs' oldParent oldName newParent newName e := by
  have hs := r.wellFormed h
  have ht : Linked t := (m.write.wellFormed hs).linked
  have hmoved := @Moved.stored s t oldParent newParent oldName newName e m hs.linked
  obtain ⟨d, d₁, d', d₂, cookie, nextCookie, n, n', c, rfl⟩ := m
  constructor
  case linked => exact h.linked
  case linked' => exact hsame.linked ht
  case root => rw [hsame.root]; exact r.root_eq
  case source => exact hsource
  case other => exact hother
  case entry_eq =>
    refine ⟨cookie, fun p k => ?_⟩
    rw [hsame.entry, c.entry_eq hs.linked]
    by_cases hnew : p = newParent ∧ k = newName
    · rw [if_pos hnew, if_pos hnew]
    · rw [if_neg hnew, if_neg hnew, r.entry_of_ne h.linked hnew]
  case kinds =>
    intro i k k' hk hk'
    rw [hsame.inodes] at hk'
    rcases hmoved (i := i) with ⟨-, hnone⟩ | ⟨k₁, k₂, h₁, h₂, -, hdir⟩
    · rw [hk'] at hnone
      cases hnone
    · rw [hk'] at h₂
      cases h₂
      rw [hdir, (r.pruned h.linked).sameKinds i k k₁ hk h₁]
  case receiver =>
    have hlive : Live s newParent := by
      rcases c.receiver with ⟨hp, -⟩ | ⟨-, hd'⟩
      · rw [← hp]
        exact ⟨d, c.stored, c.old_linked hs.linked⟩
      · exact ⟨d', hd', c.live⟩
    have hstored : ∃ k, s.inodes[newParent]? = some k ∧ k.kind.isDirectory = true ∧
        0 < k.linkCount := by
      obtain ⟨k, hk, hpos⟩ := hlive
      refine ⟨k, hk, ?_, hpos⟩
      rcases c.receiver with ⟨hp, -⟩ | ⟨-, hd'⟩
      · rw [← hp, c.stored] at hk
        cases hk
        exact c.old_directory
      · rw [hk] at hd'
        cases hd'
        exact c.directory
    obtain ⟨k, hk, hdir, hpos⟩ := hstored
    obtain ⟨k₀, hk₀⟩ : ∃ k₀, fs.inodes[newParent]? = some k₀ := by
      cases hk₀ : fs.inodes[newParent]? with
      | none =>
        rw [(r.pruned h.linked).unstored newParent hk₀] at hk
        cases hk
      | some k₀ => exact ⟨k₀, rfl⟩
    obtain ⟨k₁, hk₁, hplace, -⟩ := r.directory hk₀
    rw [hk] at hk₁
    cases hk₁
    obtain ⟨l, hl⟩ := h.linked.climbs hk₀ (hplace.directory.symm.trans hdir)
      (by rw [← hplace.linkCount]; exact hpos)
    refine ⟨l, hl, fun hmem => ?_⟩
    have hl' := r.climb h.linked hl
    rw [r.root_eq] at hl'
    obtain ⟨k₂, hk₂, hdir₂⟩ := h.linked.climb_directory hl e.inode hmem
    have hkind := (r.pruned h.linked).sameKinds e.inode k₂ n hk₂ c.target
    obtain ⟨l', hl'', hnot⟩ := c.acyclic (hkind.trans hdir₂)
    rw [r.root_eq] at hl''
    rw [hl'.unique hl''] at hmem
    exact hnot hmem
  case empty => exact fun e' k he' => r.empty he' k

end Rename

end Riscbox.Filesystem

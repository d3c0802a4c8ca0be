import Riscbox.Filesystem.Call

/-!
# Reference counts and tags over runs

What the calls do to the fid counts of inodes and to the sessions that locks are tagged
with.  Only `retainFid`, `releaseFid` and `reset` change a count.
-/

namespace Riscbox.Filesystem

/-- The fid count of an inode; one that is not stored has none. -/
def refsOf (fs : Filesystem) (id : InodeId) : Nat := (fs.inodes[id]?.map (·.fidRefs)).getD 0

theorem refsOf_of_get {fs : Filesystem} {id : InodeId} {n : Inode}
    (h : fs.inodes[id]? = some n) : fs.refsOf id = n.fidRefs := by
  rw [refsOf, h]
  rfl

theorem refsOf_of_none {fs : Filesystem} {id : InodeId} (h : fs.inodes[id]? = none) :
    fs.refsOf id = 0 := by
  rw [refsOf, h]
  rfl

theorem get_of_refsOf_pos {fs : Filesystem} {id : InodeId} (h : 0 < fs.refsOf id) :
    ∃ n, fs.inodes[id]? = some n ∧ n.fidRefs = fs.refsOf id := by
  cases hn : fs.inodes[id]? with
  | none =>
    rw [refsOf_of_none hn] at h
    exact absurd h (Nat.lt_irrefl 0)
  | some n => exact ⟨n, rfl, (refsOf_of_get hn).symm⟩

theorem refsOf_congr {fs fs' : Filesystem} (h : fs'.inodes = fs.inodes) (i : InodeId) :
    fs'.refsOf i = fs.refsOf i := by
  rw [refsOf, h, refsOf]

theorem refsOf_setInode (fs : Filesystem) (id i : InodeId) (n : Inode) :
    (fs.setInode id n).refsOf i = if id = i then n.fidRefs else fs.refsOf i := by
  rw [refsOf, get_setInode]
  by_cases h : id = i
  · rw [if_pos h, if_pos h]
    rfl
  · rw [if_neg h, if_neg h, refsOf]

/-- A rewritten inode with its old count changes no count. -/
theorem refsOf_setInode_same {fs : Filesystem} {id : InodeId} {n' : Inode}
    (h : n'.fidRefs = fs.refsOf id) (i : InodeId) :
    (fs.setInode id n').refsOf i = fs.refsOf i := by
  rw [refsOf_setInode]
  by_cases hi : id = i
  · rw [if_pos hi, h, hi]
  · rw [if_neg hi]

theorem refsOf_two {fs : Filesystem} {parent id : InodeId} {d d' n' : Inode}
    (hd : fs.inodes[parent]? = some d) (hd' : d'.fidRefs = d.fidRefs)
    (hn' : n'.fidRefs = fs.refsOf id) (i : InodeId) :
    ((fs.setInode parent d').setInode id n').refsOf i = fs.refsOf i := by
  have hp : ∀ j, (fs.setInode parent d').refsOf j = fs.refsOf j :=
    refsOf_setInode_same (by rw [hd', refsOf_of_get hd])
  rw [refsOf_setInode_same (by rw [hp, hn']), hp]

/-! ## What every call but a reset keeps -/

/-- The namespace is the same one, and session identities only grow. -/
structure Frame (fs fs' : Filesystem) : Prop where
  identity : fs'.identity = fs.identity
  generation : fs'.generation = fs.generation
  limits : fs'.limits = fs.limits
  nextSession : fs.nextSession ≤ fs'.nextSession

theorem Frame.refl (fs : Filesystem) : Frame fs fs := ⟨rfl, rfl, rfl, Nat.le_refl _⟩

theorem Frame.trans {fs₁ fs₂ fs₃ : Filesystem} (h : Frame fs₁ fs₂) (h' : Frame fs₂ fs₃) :
    Frame fs₁ fs₃ where
  identity := h'.identity.trans h.identity
  generation := h'.generation.trans h.generation
  limits := h'.limits.trans h.limits
  nextSession := h.nextSession.trans h'.nextSession

theorem Write.frame {fs fs' : Filesystem} (w : Write fs fs') : Frame fs fs' := by
  cases w with
  | aside tree session locks => exact ⟨tree.identity, tree.generation, tree.limits, session⟩
  | adjust c => exact ⟨rfl, rfl, rfl, Nat.le_refl _⟩
  | create c => exact ⟨rfl, rfl, rfl, Nat.le_refl _⟩
  | link c => exact ⟨rfl, rfl, rfl, Nat.le_refl _⟩
  | unlink c kept => exact ⟨rfl, rfl, rfl, Nat.le_refl _⟩
  | remove c hcount hrefs => exact ⟨rfl, rfl, rfl, Nat.le_refl _⟩
  | move c => exact ⟨rfl, rfl, rfl, Nat.le_refl _⟩
  | rewrite c => exact ⟨rfl, rfl, rfl, Nat.le_refl _⟩

theorem Writes.frame {fs fs' : Filesystem} (w : Writes fs fs') : Frame fs fs' := by
  induction w with
  | refl => exact .refl fs
  | tail _ w ih => exact ih.trans w.frame

theorem released_frame (fs : Filesystem) (id : InodeId) (n : Inode) :
    Frame fs (released fs id n) := by
  unfold released
  dsimp only
  split
  · exact ⟨rfl, rfl, rfl, Nat.le_refl _⟩
  · exact ⟨rfl, rfl, rfl, Nat.le_refl _⟩

theorem Effect.frame {fs fs' : Filesystem} {call : Call} (e : Effect fs call fs')
    (hcall : call ≠ .reset) : Frame fs fs' := by
  cases e with
  | writes w => exact w.frame
  | retain hn hle => exact ⟨rfl, rfl, rfl, Nat.le_refl _⟩
  | release hn hpos => exact released_frame fs _ _
  | lock hfree => exact ⟨rfl, rfl, rfl, Nat.le_refl _⟩
  | unlock requested => exact ⟨rfl, rfl, rfl, Nat.le_refl _⟩
  | reset hg he => exact absurd rfl hcall

/-- A reset gives a new generation, and keeps the identity and the sessions. -/
theorem Effect.of_reset {fs fs' : Filesystem} (e : Effect fs .reset fs') :
    Writes fs fs' ∨ (fs'.identity = fs.identity ∧ fs'.generation = fs.generation + 1 ∧
      fs'.nextSession = fs.nextSession ∧ fs'.locks = [] ∧ ∀ i, fs'.refsOf i = 0) := by
  cases e with
  | writes w => exact .inl w
  | reset hg he =>
    obtain ⟨change, changes, -, -, -, rfl, -⟩ := he
    refine .inr ⟨rfl, rfl, rfl, rfl, fun i => ?_⟩
    have hroot : ∀ j, (emptied fs).refsOf j = 0 := by
      intro j
      rw [refsOf, emptied]
      dsimp only
      rw [BTreeMap.get_insert]
      by_cases hj : fs.nextInode = j
      · rw [if_pos hj]
        rfl
      · rw [if_neg hj]
        rfl
    exact hroot i

/-! ## Counts -/

theorem Write.refsOf_eq {fs fs' : Filesystem} (w : Write fs fs') (h : WellFormed fs)
    (i : InodeId) : fs'.refsOf i = fs.refsOf i := by
  cases w with
  | aside tree session locks => exact refsOf_congr tree.inodes i
  | adjust c => exact refsOf_setInode_same (by rw [c.fidRefs, refsOf_of_get c.stored]) i
  | create c =>
    exact refsOf_two c.stored c.entries.fidRefs
      (by rw [c.fidRefs, refsOf_of_none h.linked.fresh]) i
  | link c =>
    exact refsOf_two c.stored c.entries.fidRefs (by rw [c.fidRefs, refsOf_of_get c.target]) i
  | unlink c kept =>
    exact refsOf_two c.stored c.entries.fidRefs (by rw [c.fidRefs, refsOf_of_get c.target]) i
  | @remove parent d d' name e n n' c hcount hrefs =>
    have hsame : ∀ j, (unlinked fs parent d' name e.inode n').refsOf j = fs.refsOf j :=
      refsOf_two c.stored c.entries.fidRefs (by rw [c.fidRefs, refsOf_of_get c.target])
    by_cases hi : e.inode = i
    · have hzero : fs.refsOf i = 0 := by
        rw [← hi, refsOf_of_get c.target, ← c.fidRefs, hrefs]
      rw [hzero]
      exact refsOf_of_none (by rw [Frees.get_eq, if_pos hi])
    · rw [← hsame i, refsOf, Frees.get_eq, if_neg hi, refsOf]
  | @move oldParent d d₁ oldName newParent d' d₂ newName e cookie nextCookie n n' c =>
    have hd : ∀ j, (fs.setInode oldParent d₁).refsOf j = fs.refsOf j :=
      refsOf_setInode_same (by rw [c.entries.fidRefs, refsOf_of_get c.stored])
    have hmoved := refsOf_two c.stored' c.entries'.fidRefs
      (by rw [c.fidRefs, hd, refsOf_of_get c.target]) i
    exact hmoved.trans (hd i)
  | rewrite c => exact refsOf_setInode_same (by rw [c.fidRefs, refsOf_of_get c.stored]) i

theorem Writes.refsOf_eq {fs fs' : Filesystem} (w : Writes fs fs') (h : WellFormed fs)
    (i : InodeId) : fs'.refsOf i = fs.refsOf i := by
  induction w with
  | refl => rfl
  | tail ws w ih => rw [w.refsOf_eq (Writes.wellFormed ws h), ih]

theorem retained_refsOf {fs : Filesystem} {id : InodeId} {n : Inode}
    (hn : fs.inodes[id]? = some n) (i : InodeId) :
    (retained fs id n).refsOf i = fs.refsOf i + if id = i then 1 else 0 := by
  rw [retained, refsOf_setInode]
  by_cases hi : id = i
  · rw [if_pos hi, if_pos hi, ← hi, refsOf_of_get hn]
  · rw [if_neg hi, if_neg hi, Nat.add_zero]

theorem released_refsOf {fs : Filesystem} {id : InodeId} {n : Inode}
    (hn : fs.inodes[id]? = some n) (hpos : 0 < n.fidRefs) (i : InodeId) :
    (released fs id n).refsOf i + (if id = i then 1 else 0) = fs.refsOf i := by
  unfold released
  dsimp only
  split
  next hgone =>
    by_cases hi : id = i
    · have hnone : (freed (fs.setInode id { n with fidRefs := n.fidRefs - 1 })
          id { n with fidRefs := n.fidRefs - 1 }).refsOf i = 0 :=
        refsOf_of_none (by rw [Frees.get_eq, if_pos hi])
      rw [hnone, if_pos hi, ← hi, refsOf_of_get hn]
      omega
    · rw [refsOf, Frees.get_eq, if_neg hi, if_neg hi, get_setInode, if_neg hi, refsOf]
      rfl
  next hkept =>
    rw [refsOf_setInode]
    by_cases hi : id = i
    · rw [if_pos hi, if_pos hi, ← hi, refsOf_of_get hn]
      show n.fidRefs - 1 + 1 = n.fidRefs
      omega
    · rw [if_neg hi, if_neg hi, Nat.add_zero]

/-- The calls that change counts. -/
def Call.counts : Call → Bool
  | .retainFid _ | .releaseFid _ | .reset => true
  | _ => false

theorem Effect.refsOf_eq {fs fs' : Filesystem} {call : Call} (e : Effect fs call fs')
    (h : WellFormed fs) (hcall : call.counts = false) (i : InodeId) :
    fs'.refsOf i = fs.refsOf i := by
  cases e with
  | writes w => exact w.refsOf_eq h i
  | retain hn hle => cases hcall
  | release hn hpos => cases hcall
  | lock hfree => rfl
  | unlock requested => rfl
  | reset hg he => cases hcall

/-! ## Tags of locks -/

/-- Locks are tagged as before, or by the given session. -/
def TagsFrom (fs fs' : Filesystem) (session : Option Nat) : Prop :=
  ∀ l ∈ fs'.locks, some l.session = session ∨ ∃ l' ∈ fs.locks, l'.session = l.session

theorem TagsFrom.of_drops {fs fs' : Filesystem} (h : DropsLocks fs fs')
    (session : Option Nat) : TagsFrom fs fs' session := by
  obtain ⟨keep, hkeep⟩ := h
  intro l hl
  rw [hkeep] at hl
  exact .inr ⟨l, (List.mem_filter.mp hl).1, rfl⟩

theorem TagsFrom.trans {fs₁ fs₂ fs₃ : Filesystem} {session : Option Nat}
    (h : TagsFrom fs₁ fs₂ session) (h' : TagsFrom fs₂ fs₃ session) :
    TagsFrom fs₁ fs₃ session := by
  intro l hl
  rcases h' l hl with hs | ⟨m, hm, heq⟩
  · exact .inl hs
  · rcases h m hm with hs | ⟨k, hk, heq'⟩
    · exact .inl (by rw [← heq, hs])
    · exact .inr ⟨k, hk, heq'.trans heq⟩

theorem TagsFrom.weaken {fs fs' : Filesystem} (h : TagsFrom fs fs' none)
    (session : Option Nat) : TagsFrom fs fs' session := by
  intro l hl
  rcases h l hl with hs | hold
  · cases hs
  · exact .inr hold

/-- The session that a call tags its locks with. -/
def Call.tag : Call → Option Nat
  | .tryLock requested => some requested.session
  | _ => none

theorem TagsFrom.of_cut {fs : Filesystem} (requested : ByteRangeLock) :
    TagsFrom fs { fs with locks := fs.locks.flatMap (cut requested) } none := by
  intro l hl
  obtain ⟨held, hmem, hpiece⟩ := List.mem_flatMap.mp hl
  obtain ⟨⟨-, -, -, -, hsession⟩, -⟩ := mem_cut hpiece
  exact .inr ⟨held, hmem, hsession.symm⟩

theorem Effect.tags {fs fs' : Filesystem} {call : Call} (e : Effect fs call fs') :
    TagsFrom fs fs' call.tag := by
  cases e with
  | writes w => exact .of_drops w.dropsLocks _
  | retain hn hle => exact .of_drops (.of_eq rfl) _
  | @release id n hn hpos =>
    refine .of_drops ?_ _
    unfold released
    dsimp only
    split
    · exact ⟨_, rfl⟩
    · exact .of_eq rfl
  | @lock requested hfree =>
    intro l hl
    rcases List.mem_append.mp hl with hl | hl
    · exact TagsFrom.weaken (.of_cut requested) _ l hl
    · rw [List.mem_singleton.mp hl]
      exact .inl rfl
  | unlock requested => exact .of_cut requested
  | reset hg he =>
    obtain ⟨change, changes, -, -, -, rfl, -⟩ := he
    intro l hl
    cases hl

/-! ## Runs without a reset -/

/-- One state leads to another by public calls other than `reset`. -/
def Reached (fs fs' : Filesystem) : Prop := ∃ calls, .reset ∉ calls ∧ fs' = runCalls fs calls

namespace Reached

variable {fs fs₁ fs₂ fs₃ fs' : Filesystem}

theorem refl (fs : Filesystem) : Reached fs fs := ⟨[], List.not_mem_nil, rfl⟩

theorem trans (h : Reached fs₁ fs₂) (h' : Reached fs₂ fs₃) : Reached fs₁ fs₃ := by
  obtain ⟨calls, hcalls, rfl⟩ := h
  obtain ⟨calls', hcalls', rfl⟩ := h'
  refine ⟨calls ++ calls', ?_, List.foldl_append.symm⟩
  rw [List.mem_append, not_or]
  exact ⟨hcalls, hcalls'⟩

theorem call {call : Call} (hcall : call ≠ .reset) (fs : Filesystem) :
    Reached fs (call.after fs) :=
  ⟨[call], by simpa using Ne.symm hcall, rfl⟩

/-- What an effect keeps, a run without a reset keeps. -/
theorem induction {P : Filesystem → Prop} (h : Reached fs fs') (hw : WellFormed fs) (hp : P fs)
    (step : ∀ {t t' : Filesystem} {call : Call}, call ≠ .reset → Effect t call t' →
      WellFormed t → P t → P t') : WellFormed fs' ∧ P fs' := by
  obtain ⟨calls, hcalls, rfl⟩ := h
  induction calls generalizing fs with
  | nil => exact ⟨hw, hp⟩
  | cons call calls ih =>
    rw [List.mem_cons, not_or] at hcalls
    have he := call.effect hw
    exact ih (he.wellFormed hw) (step (Ne.symm hcalls.1) he hw hp) hcalls.2

theorem wellFormed (h : Reached fs fs') (hw : WellFormed fs) : WellFormed fs' :=
  (h.induction (P := fun _ => True) hw trivial fun _ _ _ _ => trivial).1

theorem frame (h : Reached fs fs') (hw : WellFormed fs) : Frame fs fs' :=
  (h.induction (P := Frame fs) hw (.refl fs) fun hcall he _ hf => hf.trans (he.frame hcall)).2

end Reached

end Riscbox.Filesystem

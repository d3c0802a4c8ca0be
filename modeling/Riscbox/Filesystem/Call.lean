import Riscbox.Filesystem.ByteLocks

/-!
# Runs of the public operations

A run is any list of calls on a new namespace, whatever each of them answers.  What one
call can do is an `Effect`; what holds in every reachable state follows from it.
-/

namespace Riscbox.Filesystem

/-- The public operations that take the namespace mutably, with their arguments. -/
inductive Call where
  | setTime (now : UInt64)
  | setMutationSource (source : ChangeSource)
  | allocateSession
  | retainFid (id : InodeId)
  | releaseFid (id : InodeId)
  | nextChange
  | setChangeTracking (enabled : Bool)
  | tryLock (requested : ByteRangeLock)
  | unlock (inode : InodeId) (session : Nat) (process : UInt32) (client : String)
      (start length : UInt64)
  | releaseSessionLocks (session : Nat)
  | setMetadata (id : InodeId) (update : Metadata)
  | mkdir (path : String)
  | symlink (path target : String)
  | writeFile (path : String) (bytes : List UInt8)
  | remove (path : String)
  | removeAt (parent : InodeId) (name : String)
  | hardLink (existing newPath : String)
  | linkAt (parent : InodeId) (name : String) (id : InodeId)
  | rename (oldPath newPath : String)
  | renameAt (oldParent : InodeId) (oldName : String) (newParent : InodeId) (newName : String)
  | clear
  | reset
  | createFileAt (parent : InodeId) (name : String) (mode uid gid : UInt32)
  | mkdirAt (parent : InodeId) (name : String) (mode uid gid : UInt32)
  | symlinkAt (parent : InodeId) (name target : String) (uid gid : UInt32)
  | readInode (id : InodeId) (offset : UInt64) (count : Nat) (updateAtime : Bool)
  | writeInode (id : InodeId) (offset : UInt64) (data : List UInt8) (append : Bool)
  | updateAttributes (id : InodeId) (update : AttributeUpdate)

/-- What a call answers. -/
inductive Answer where
  | done
  | session (id : Nat)
  | inode (id : InodeId)
  | granted (granted : Bool)
  | bytes (bytes : List UInt8)
  | change (change : Option Change)
  deriving DecidableEq

def Call.run : Call → FsOp Answer
  | .setTime now => (fun _ => Answer.done) <$> Filesystem.setTime now
  | .setMutationSource source => (fun _ => Answer.done) <$> Filesystem.setMutationSource source
  | .allocateSession => .session <$> Filesystem.allocateSession
  | .retainFid id => (fun _ => Answer.done) <$> Filesystem.retainFid id
  | .releaseFid id => (fun _ => Answer.done) <$> Filesystem.releaseFid id
  | .nextChange => .change <$> Filesystem.nextChange
  | .setChangeTracking enabled => (fun _ => Answer.done) <$> Filesystem.setChangeTracking enabled
  | .tryLock requested => .granted <$> Filesystem.tryLock requested
  | .unlock inode session process client start length =>
    (fun _ => Answer.done) <$> Filesystem.unlock inode session process client start length
  | .releaseSessionLocks session => (fun _ => Answer.done) <$> Filesystem.releaseSessionLocks session
  | .setMetadata id update => (fun _ => Answer.done) <$> Filesystem.setMetadata id update
  | .mkdir path => .inode <$> Filesystem.mkdir path
  | .symlink path target => .inode <$> Filesystem.symlink path target
  | .writeFile path bytes => .inode <$> Filesystem.writeFile path bytes
  | .remove path => (fun _ => Answer.done) <$> Filesystem.remove path
  | .removeAt parent name => (fun _ => Answer.done) <$> Filesystem.removeAt parent name
  | .hardLink existing newPath => (fun _ => Answer.done) <$> Filesystem.hardLink existing newPath
  | .linkAt parent name id => (fun _ => Answer.done) <$> Filesystem.linkAt parent name id
  | .rename oldPath newPath => (fun _ => Answer.done) <$> Filesystem.rename oldPath newPath
  | .renameAt oldParent oldName newParent newName =>
    (fun _ => Answer.done) <$> Filesystem.renameAt oldParent oldName newParent newName
  | .clear => (fun _ => Answer.done) <$> Filesystem.clear
  | .reset => (fun _ => Answer.done) <$> Filesystem.reset
  | .createFileAt parent name mode uid gid => .inode <$> Filesystem.createFileAt parent name mode uid gid
  | .mkdirAt parent name mode uid gid => .inode <$> Filesystem.mkdirAt parent name mode uid gid
  | .symlinkAt parent name target uid gid => .inode <$> Filesystem.symlinkAt parent name target uid gid
  | .readInode id offset count updateAtime => .bytes <$> Filesystem.readInode id offset count updateAtime
  | .writeInode id offset data append => (fun _ => Answer.done) <$> Filesystem.writeInode id offset data append
  | .updateAttributes id update => (fun _ => Answer.done) <$> Filesystem.updateAttributes id update

def Call.after (call : Call) (fs : Filesystem) : Filesystem := Op.after call.run fs

/-- The state after a list of calls. -/
def runCalls (fs : Filesystem) (calls : List Call) : Filesystem :=
  calls.foldl (fun fs call => call.after fs) fs

/-! ## What a call can do -/

/-- Everything that a call can do to the state. -/
inductive Effect (fs : Filesystem) : Call → Filesystem → Prop
  | writes {call : Call} {fs' : Filesystem} (w : Writes fs fs') : Effect fs call fs'
  | retain {id : InodeId} {n : Inode} (stored : fs.inodes[id]? = some n)
      (refs : n.fidRefs + 1 ≤ u32Max) : Effect fs (.retainFid id) (retained fs id n)
  | release {id : InodeId} {n : Inode} (stored : fs.inodes[id]? = some n)
      (refs : 0 < n.fidRefs) : Effect fs (.releaseFid id) (released fs id n)
  | lock {requested : ByteRangeLock}
      (free : ∀ held ∈ fs.locks, conflicts requested held = false) :
      Effect fs (.tryLock requested)
        { fs with locks := fs.locks.flatMap (cut requested) ++ [requested] }
  | unlock {inode : InodeId} {session : Nat} {process : UInt32} {client : String}
      {start length : UInt64} (requested : ByteRangeLock) :
      Effect fs (.unlock inode session process client start length)
        { fs with locks := fs.locks.flatMap (cut requested) }
  | reset {fs' : Filesystem} (generation : fs.generation + 1 ≤ u64Max)
      (reported : Emits .reset none (emptied fs) fs') : Effect fs .reset fs'

theorem Effect.refl (fs : Filesystem) (call : Call) : Effect fs call fs := .writes .refl

theorem Reports.effect {kind : ChangeKind} {inode : Option InodeId} {fs fs' : Filesystem}
    (h : Reports kind inode fs fs') (call : Call) : Effect fs call fs' := by
  obtain ⟨t, w, -, -, -, he⟩ := h
  exact .writes (.tail (.single w) he.write)

/-- A change of the bookkeeping fields only. -/
theorem Effect.aside {fs fs' : Filesystem} {call : Call} (tree : SameTree fs fs')
    (session : fs.nextSession ≤ fs'.nextSession) (locks : DropsLocks fs fs') :
    Effect fs call fs' :=
  .writes (.single (.aside tree session locks))

theorem setChangeTracking_yields {fs : Filesystem} (h : WellFormed fs) (enabled : Bool) :
    (setChangeTracking enabled).Yields fs fun _ fs' =>
      (fs.recordChanges = enabled ∧ fs' = fs) ∨
        (fs.recordChanges ≠ enabled ∧ ((enabled = false ∧
          fs' = { fs with recordChanges := false, changes := [] }) ∨
          (enabled = true ∧
            Emits .rescan none { fs with recordChanges := true, changes := [] } fs'))) := by
  unfold setChangeTracking
  refine Op.yields_step (Op.get_apply _) ?_
  by_cases hsame : fs.recordChanges = enabled
  · rw [if_pos hsame]
    exact Op.yields_pure (.inl ⟨hsame, rfl⟩)
  rw [if_neg hsame]
  refine Op.yields_step (Op.set_apply _ _) ?_
  cases enabled with
  | false => exact Op.yields_pure (.inr ⟨hsame, .inl ⟨rfl, rfl⟩⟩)
  | true =>
    have hl : Linked { fs with recordChanges := true, changes := [] } :=
      h.linked.congr rfl rfl rfl rfl
    exact (emit_yields hl .rescan none "" none).mono
      fun _ fs' he => .inr ⟨hsame, .inr ⟨rfl, he⟩⟩

theorem allocateSession_ends (fs : Filesystem) :
    allocateSession.Ends fs fun id fs' => id = fs.nextSession ∧
      fs.nextSession + 1 ≤ u64Max ∧ fs' = { fs with nextSession := fs.nextSession + 1 } := by
  unfold allocateSession
  refine Op.ends_get ?_
  refine Op.ends_lift (Outcome.okOr_ne_panic _ _) fun next hn => ?_
  obtain ⟨hnext, rfl⟩ := checkedAdd_eq_some.mp (Outcome.okOr_eq_ok.mp hn)
  exact Op.Yields.ends ⟨_, _, rfl, rfl, hnext, rfl⟩

theorem Reports.writes {kind : ChangeKind} {inode : Option InodeId} {fs fs' : Filesystem}
    (h : Reports kind inode fs fs') : Writes fs fs' := by
  obtain ⟨t, w, -, -, -, he⟩ := h
  exact .tail (.single w) he.write

theorem Replaced.writes {fs t : Filesystem} {parent : InodeId} {name : String}
    (r : Replaced fs parent name t) : Writes fs t := by
  rcases r with ⟨_, rfl⟩ | ⟨e, u, hr, he⟩
  · exact .refl
  · exact (hr.reports he).writes

theorem renameAt_writes {fs : Filesystem} (h : WellFormed fs) (oldParent : InodeId)
    (oldName : String) (newParent : InodeId) (newName : String) :
    (renameAt oldParent oldName newParent newName).Ends fs fun _ fs' => Writes fs fs' := by
  refine (renameAt_ends h oldParent oldName newParent newName).mono ?_
  rintro _ fs' ⟨e, -, ⟨rfl, -⟩ | ⟨s, t, -, hs, ht, he⟩⟩
  · exact .refl
  · exact hs.writes.trans (ht.reports he).writes

/-- Every call is atomic, does not panic, and has one of the effects. -/
theorem Call.ends {fs : Filesystem} (h : WellFormed fs) (call : Call) :
    call.run.Ends fs fun _ fs' => Effect fs call fs' := by
  cases call with
  | setTime now =>
    exact Op.Yields.ends ⟨.done, _, rfl, .aside ⟨rfl, rfl, rfl, rfl, rfl, rfl, rfl, rfl, rfl⟩
      (Nat.le_refl _) (.of_eq rfl)⟩
  | setMutationSource source =>
    exact Op.Yields.ends ⟨.done, _, rfl, .aside ⟨rfl, rfl, rfl, rfl, rfl, rfl, rfl, rfl, rfl⟩
      (Nat.le_refl _) (.of_eq rfl)⟩
  | allocateSession =>
    refine .map ((allocateSession_ends fs).mono ?_)
    rintro id fs' ⟨-, -, rfl⟩
    exact .aside ⟨rfl, rfl, rfl, rfl, rfl, rfl, rfl, rfl, rfl⟩ (Nat.le_succ _) (.of_eq rfl)
  | retainFid id =>
    refine .map ((retainFid_ends fs id).mono ?_)
    rintro _ fs' ⟨n, hn, hle, rfl⟩
    exact .retain hn hle
  | releaseFid id =>
    refine .map ((releaseFid_ends h id).mono ?_)
    rintro _ fs' ⟨n, hn, hpos, rfl⟩
    exact .release hn hpos
  | nextChange =>
    exact Op.Yields.ends ⟨.change fs.changes.head?, _, rfl,
      .aside ⟨rfl, rfl, rfl, rfl, rfl, rfl, rfl, rfl, rfl⟩ (Nat.le_refl _) (.of_eq rfl)⟩
  | setChangeTracking enabled =>
    refine .map ((setChangeTracking_yields h enabled).ends.mono ?_)
    rintro _ fs' (⟨-, rfl⟩ | ⟨-, ⟨-, rfl⟩ | ⟨-, he⟩⟩)
    · exact .refl fs' _
    · exact .aside ⟨rfl, rfl, rfl, rfl, rfl, rfl, rfl, rfl, rfl⟩ (Nat.le_refl _) (.of_eq rfl)
    · obtain ⟨change, changes, -, -, -, rfl, -⟩ := he
      exact .aside ⟨rfl, rfl, rfl, rfl, rfl, rfl, rfl, rfl, rfl⟩ (Nat.le_refl _) (.of_eq rfl)
  | tryLock requested =>
    refine .map ((tryLock_ends fs requested).mono ?_)
    rintro granted fs' ⟨-, ⟨-, rfl⟩ | ⟨-, hfree, rfl⟩⟩
    · exact .refl fs' _
    · exact .lock hfree
  | unlock inode session process client start length =>
    refine .map ((unlock_ends fs inode session process client start length).mono ?_)
    rintro _ fs' ⟨-, rfl⟩
    exact .unlock _
  | releaseSessionLocks session =>
    exact Op.Yields.ends ⟨.done, _, rfl, .aside ⟨rfl, rfl, rfl, rfl, rfl, rfl, rfl, rfl, rfl⟩
      (Nat.le_refl _) ⟨_, rfl⟩⟩
  | setMetadata id update =>
    refine .map ((setMetadata_ends h id update).mono ?_)
    rintro _ fs' (⟨-, rfl⟩ | ⟨-, hr⟩)
    · exact .refl fs' _
    · exact hr.effect _
  | mkdir path => exact .map ((mkdir_ends h path).mono fun _ _ hr => hr.2.effect _)
  | symlink path target => exact .map ((symlink_ends h path target).mono fun _ _ hr => hr.2.effect _)
  | writeFile path bytes =>
    refine .map ((writeFile_ends h path bytes).mono ?_)
    rintro id fs' (⟨-, hr⟩ | ⟨-, hr⟩)
    · exact hr.effect _
    · exact hr.effect _
  | remove path => exact .map ((remove_ends h path).mono fun _ _ ⟨_, hr⟩ => hr.effect _)
  | removeAt parent name =>
    exact .map ((removeAt_ends h parent name).mono fun _ _ ⟨e, t, hr, he⟩ => (hr.reports he).effect _)
  | hardLink existing newPath =>
    exact .map ((hardLink_ends h existing newPath).mono fun _ _ ⟨_, hr⟩ => hr.effect _)
  | linkAt parent name id =>
    refine .map ((linkAt_ends h parent name id).mono ?_)
    rintro _ fs' ⟨d, d', n, n', c, he⟩
    exact .writes (.tail (.single (.link c)) he.write)
  | rename oldPath newPath =>
    refine .map (Op.ends_reading (parent_ne_panic fs oldPath) fun old _ => ?_)
    exact Op.ends_reading (parent_ne_panic fs newPath) fun new _ =>
      (renameAt_writes h _ _ _ _).mono fun _ _ hw => .writes hw
  | renameAt oldParent oldName newParent newName =>
    exact .map ((renameAt_writes h oldParent oldName newParent newName).mono fun _ _ hw => .writes hw)
  | clear =>
    exact .map ((clear_yields h).ends.mono fun _ _ ⟨_, _, _, _, hc⟩ => .writes hc.writes)
  | reset => exact .map ((reset_ends fs).mono fun _ _ ⟨hg, he⟩ => .reset hg he)
  | createFileAt parent name mode uid gid =>
    exact .map ((createFileAt_ends h).mono fun _ _ ⟨_, t, ht, he⟩ => (ht.reports he).effect _)
  | mkdirAt parent name mode uid gid =>
    exact .map ((mkdirAt_ends h).mono fun _ _ ⟨_, t, ht, he⟩ => (ht.reports he).effect _)
  | symlinkAt parent name target uid gid =>
    exact .map ((symlinkAt_ends h).mono fun _ _ ⟨_, t, ht, he⟩ => (ht.reports he).effect _)
  | readInode id offset count updateAtime =>
    refine .map ((readInode_ends h id offset count updateAtime).mono ?_)
    rintro bytes fs' ⟨n, body, hn, hkind, -, rfl | rfl⟩
    · exact .refl fs' _
    · exact .writes (.single (.adjust ⟨hn, ⟨rfl, rfl, rfl, rfl⟩, rfl, rfl⟩))
  | writeInode id offset data append =>
    refine .map ((writeInode_ends h id offset data append).mono ?_)
    rintro _ fs' (⟨-, rfl⟩ | ⟨-, hr⟩)
    · exact .refl fs' _
    · exact hr.effect _
  | updateAttributes id update =>
    refine .map ((updateAttributes_ends h id update).mono ?_)
    rintro _ fs' ⟨⟨-, rfl⟩ | ⟨-, hr⟩, -⟩
    · exact .refl fs' _
    · exact hr.effect _

theorem relocked_wellFormed {fs : Filesystem} (h : WellFormed fs) (locks : List ByteRangeLock) :
    WellFormed { fs with locks := locks } :=
  have tree : SameTree fs { fs with locks := locks } :=
    ⟨rfl, rfl, rfl, rfl, rfl, rfl, rfl, rfl, rfl⟩
  tree.wellFormed h

theorem Effect.wellFormed {fs fs' : Filesystem} {call : Call} (e : Effect fs call fs') (h : WellFormed fs) :
    WellFormed fs' := by
  cases e with
  | writes w => exact w.wellFormed h
  | retain hn hle => exact retained_wellFormed h hn
  | release hn hpos => exact released_wellFormed h hn
  | lock hfree => exact relocked_wellFormed h _
  | unlock requested => exact relocked_wellFormed h _
  | reset hg he => exact he.write.wellFormed (emptied_wellFormed fs)

theorem Effect.locksSound {fs fs' : Filesystem} {call : Call} (e : Effect fs call fs') (h : LocksSound fs.locks) :
    LocksSound fs'.locks := by
  cases e with
  | writes w =>
    obtain ⟨keep, hkeep⟩ := w.dropsLocks
    rw [hkeep]
    exact h.filter keep
  | retain hn hle => exact h
  | @release id n hn hpos =>
    unfold released
    dsimp only
    split
    · exact h.filter _
    · exact h
  | lock hfree => exact h.grant hfree
  | unlock requested => exact h.cut requested
  | reset hg he =>
    obtain ⟨change, changes, -, -, -, rfl, -⟩ := he
    exact .nil

/-- A call leaves the state or has an effect, whatever it answers. -/
theorem Call.effect {fs : Filesystem} (h : WellFormed fs) (call : Call) :
    Effect fs call (call.after fs) := by
  rcases (call.ends h).after_cases with heq | ⟨_, _, he⟩
  · rw [Call.after, heq]
    exact .refl fs call
  · exact he

/-- What every effect keeps holds after every run. -/
theorem runCalls_induction {P : Filesystem → Prop}
    (step : ∀ {fs fs' : Filesystem} {call : Call}, Effect fs call fs' → WellFormed fs → P fs → P fs') :
    ∀ (calls : List Call) {fs : Filesystem}, WellFormed fs → P fs →
      WellFormed (runCalls fs calls) ∧ P (runCalls fs calls) := by
  intro calls
  induction calls with
  | nil => exact fun h hp => ⟨h, hp⟩
  | cons call calls ih =>
    intro fs h hp
    have he := call.effect h
    exact ih (he.wellFormed h) (step he h hp)

theorem runCalls_wellFormed (identity : Nat) (limits : Limits) (now : UInt64)
    (calls : List Call) : WellFormed (runCalls (new identity limits now) calls) :=
  (runCalls_induction (P := fun _ => True) (fun _ _ _ => trivial) calls
    (new_wellFormed identity limits now) trivial).1

theorem runCalls_locksSound (identity : Nat) (limits : Limits) (now : UInt64)
    (calls : List Call) : LocksSound (runCalls (new identity limits now) calls).locks :=
  (runCalls_induction (P := fun fs => LocksSound fs.locks) (fun he _ h => he.locksSound h) calls
    (new_wellFormed identity limits now) .nil).2

/-! ## Reachable states -/

/-- The four records of the tree agree in every reachable state. -/
theorem runCalls_namespace (identity : Nat) (limits : Limits) (now : UInt64)
    (calls : List Call) : Namespace (runCalls (new identity limits now) calls) :=
  (runCalls_wellFormed identity limits now calls).tree

/-- A call that fails in a reachable state changes nothing, no call panics, and `clear`
does not fail. -/
theorem runCalls_atomic (identity : Nat) (limits : Limits) (now : UInt64) (calls : List Call) :
    (∀ (call : Call) (e : FilesystemError),
      (call.run (runCalls (new identity limits now) calls)).1 = .err e →
        call.after (runCalls (new identity limits now) calls) =
          runCalls (new identity limits now) calls) ∧
    (∀ call : Call, (call.run (runCalls (new identity limits now) calls)).1 ≠ .panic) ∧
    (Call.clear.run (runCalls (new identity limits now) calls)).1 = .ok .done := by
  have h := runCalls_wellFormed identity limits now calls
  refine ⟨fun call e he => (call.ends h).of_err he, fun call => (call.ends h).ne_panic, ?_⟩
  obtain ⟨_, fs', hclear, -⟩ := clear_yields h
  exact congrArg Prod.fst (Op.bind_ok hclear)

/-- The map on bytes that a lock request or an unlock leaves behind. -/
def Grants (fs : Filesystem) (requested : ByteRangeLock) (fs' : Filesystem) : Prop :=
  ∃ locks, fs' = { fs with locks := locks } ∧ ∀ byte, heldBytes locks byte =
    if covers requested byte then some (requested.kind, requested.session)
    else heldBytes fs.locks byte

def Revokes (fs : Filesystem) (requested : ByteRangeLock) (fs' : Filesystem) : Prop :=
  ∃ locks, fs' = { fs with locks := locks } ∧ ∀ byte, heldBytes locks byte =
    if covers requested byte then none else heldBytes fs.locks byte

/-- No two owners conflict on a byte, and the locks of one owner do not overlap. -/
structure BytesSound (locks : List ByteRangeLock) : Prop where
  compatible : ∀ (byte byte' : LockByte) (kind kind' : LockKind) (session session' : Nat),
    byte.inode = byte'.inode → byte.offset = byte'.offset →
    ¬(byte.process = byte'.process ∧ byte.client = byte'.client) →
    heldBytes locks byte = some (kind, session) → heldBytes locks byte' = some (kind', session') →
    kind = .read ∧ kind' = .read
  disjoint : locks.Pairwise fun a b => ∀ byte, ¬(covers a byte = true ∧ covers b byte = true)

theorem LocksSound.bytesSound {locks : List ByteRangeLock} (h : LocksSound locks) :
    BytesSound locks where
  compatible := by
    intro byte byte' kind kind' session session' hinode hoffset howner hheld hheld'
    obtain ⟨a, ha, hcovers, hvalue⟩ := Regions.exists_of_valueAt hheld
    obtain ⟨b, hb, hcovers', hvalue'⟩ := Regions.exists_of_valueAt hheld'
    cases hvalue
    cases hvalue'
    obtain ⟨a₁, a₂, a₃, alo, ahi⟩ := covers_iff.mp hcovers
    obtain ⟨b₁, b₂, b₃, blo, bhi⟩ := covers_iff.mp hcovers'
    have hfree := h.compatible a ha b hb
    rw [← Bool.not_eq_true, conflicts_iff] at hfree
    have hreads : ¬(b.kind = .write ∨ a.kind = .write) := by
      intro hwrite
      refine hfree ⟨b₁.trans (hinode.symm.trans a₁.symm), ?_, hwrite, by omega, by omega⟩
      rw [a₂, a₃, b₂, b₃]
      rintro ⟨hprocess, hclient⟩
      exact howner ⟨hprocess.symm, hclient.symm⟩
    rw [not_or] at hreads
    constructor
    · cases hk : a.kind with
      | read => rfl
      | write => exact absurd hk hreads.2
    · cases hk : b.kind with
      | read => rfl
      | write => exact absurd hk hreads.1
  disjoint := h.disjoint.imp fun hab byte hboth => by
    rw [hab byte hboth.1] at hboth
    exact absurd hboth.2 (by simp)

/-- The lock operations of a state, each as an operation on the map on bytes. -/
structure RefinesBytes (fs : Filesystem) : Prop where
  sound : BytesSound fs.locks
  /-- Only regular files have locks. -/
  rejected : ∀ (requested : ByteRangeLock) (e : FilesystemError),
    fs.checkFileInode requested.inode = .err e → tryLock requested fs = (.err e, fs) ∧
      fs.conflictingLock requested = .err e
  refused : ∀ requested : ByteRangeLock, fs.checkFileInode requested.inode = .ok () →
    ConflictingByte fs.locks requested → tryLock requested fs = (.ok false, fs)
  granted : ∀ requested : ByteRangeLock, fs.checkFileInode requested.inode = .ok () →
    ¬ConflictingByte fs.locks requested →
      ∃ fs', tryLock requested fs = (.ok true, fs') ∧ Grants fs requested fs'
  found : ∀ requested : ByteRangeLock, fs.checkFileInode requested.inode = .ok () →
    ∃ held, fs.conflictingLock requested = .ok held ∧
      (held.isSome = true ↔ ConflictingByte fs.locks requested)
  unlocked : ∀ (inode : InodeId) (session : Nat) (process : UInt32) (client : String)
    (start length : UInt64), fs.checkFileInode inode = .ok () →
      ∃ fs', unlock inode session process client start length fs = (.ok (), fs') ∧
        Revokes fs (unlockRange inode session process client start length) fs'
  released : ∀ session : Nat, ∃ locks,
    releaseSessionLocks session fs = (.ok (), { fs with locks := locks }) ∧
      ∀ byte, heldBytes locks byte = (heldBytes fs.locks byte).filter (·.2 ≠ session)
  /-- The pieces of a lock are computed without a panic, and reach the end of the offsets
  only if the lock did. -/
  pieces : ∀ requested : ByteRangeLock, ∃ pieces,
    subtractOwned requested fs.locks = .ok pieces ∧ ∀ piece ∈ pieces, piece.length = 0 →
      ∃ held ∈ fs.locks, SameHolder held piece ∧ lockEnd held = offsetLimit

theorem LocksSound.refinesBytes {fs : Filesystem} (h : LocksSound fs.locks) : RefinesBytes fs where
  sound := h.bytesSound
  rejected := by
    intro requested e hfile
    have hread : fs.conflictingLock requested = .err e := by
      rw [conflictingLock, hfile]
      rfl
    exact ⟨Op.bind_err (by rw [Op.reading_apply, hread]), hread⟩
  refused := by
    intro requested hfile hbyte
    obtain ⟨held, hmem, hconflict⟩ := (conflictingByte_iff h requested).mp hbyte
    exact tryLock_refused hfile hmem hconflict
  granted := by
    intro requested hfile hbyte
    have hfree : ∀ held ∈ fs.locks, conflicts requested held = false := by
      intro held hmem
      rw [← Bool.not_eq_true]
      exact fun hc => hbyte ((conflictingByte_iff h requested).mpr ⟨held, hmem, hc⟩)
    exact ⟨_, tryLock_granted hfile hfree, _, rfl, heldBytes_grant h requested⟩
  found := by
    intro requested hfile
    refine ⟨_, conflictingLock_eq hfile, ?_⟩
    rw [conflictingByte_iff h, List.find?_isSome]
  unlocked := by
    intro inode session process client start length hfile
    exact ⟨_, unlock_eq hfile session process client start length, _, rfl, heldBytes_cut h _⟩
  released := fun session => ⟨_, rfl, heldBytes_release h session⟩
  pieces := by
    intro requested
    refine ⟨_, subtractOwned_ok requested fs.locks, fun piece hpiece hzero => ?_⟩
    obtain ⟨held, hmem, hpiece⟩ := List.mem_flatMap.mp hpiece
    obtain ⟨hsame, -, -, hend⟩ := mem_cut hpiece
    exact ⟨held, hmem, hsame, hend hzero⟩

/-- The lock list refines a map on bytes in every reachable state. -/
theorem runCalls_refinesBytes (identity : Nat) (limits : Limits) (now : UInt64)
    (calls : List Call) : RefinesBytes (runCalls (new identity limits now) calls) :=
  (runCalls_locksSound identity limits now calls).refinesBytes

end Riscbox.Filesystem

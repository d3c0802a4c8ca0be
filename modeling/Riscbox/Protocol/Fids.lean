import Riscbox.Protocol.Served

/-!
# Installing and releasing fids

The two places where a session changes counts, and what holds when its fids are counted.
-/

namespace Riscbox

open NinePSession
open Filesystem (WellFormed Call)

/-! ## Installing a fid -/

theorem installFid_eq {a : Activation} {number : UInt32} {fid : Fid} {n : Inode}
    (hn : a.fs.inodes[fid.inode]? = some n) (hle : n.fidRefs + 1 ≤ u32Max) :
    installFid number fid a = (match a.session.fids[number]? with
      | some old => calling (Filesystem.releaseFid old.inode)
      | none => (pure () : SessionOp UInt32 Unit)) (installed a number fid n) := by
  refine (Op.bind_ok (onFs_ok (Filesystem.retainFid_yields hn hle))).trans ?_
  exact (Op.bind_ok (Op.get_apply _)).trans (Op.bind_ok (Op.modify_apply _ _))

theorem installed_served {a : Activation} {number : UInt32} {fid : Fid} {n : Inode}
    (hn : a.fs.inodes[fid.inode]? = some n) (hle : n.fidRefs + 1 ≤ u32Max)
    (hplace : a.session.FidsBounded → a.session.Vacant number)
    (hnew : a.session.fids[number]? = none) : Served a (installed a number fid n) where
  reached := installed_reached a number hn hle
  device := .withFids _ _
  counted := by
    intro _
    refine ⟨fun i => ?_, fun h => h.insert (hplace h) fid, ?_⟩
    · have hrefs := Filesystem.retained_refsOf hn i
      have hheld := held_insert_of_none fid hnew i
      show (a.fs.retained fid.inode n).refsOf i + a.session.held i =
        a.fs.refsOf i + (a.session.withFids _).held i
      omega
    · exact fun l hl => .inr ⟨l, hl, rfl⟩

theorem replaced_served {a : Activation} (hw : WellFormed a.fs) {number : UInt32}
    {fid old : Fid} {n m : Inode} (hn : a.fs.inodes[fid.inode]? = some n)
    (hle : n.fidRefs + 1 ≤ u32Max) (hplace : a.session.FidsBounded → a.session.Vacant number)
    (hold : a.session.fids[number]? = some old)
    (hm : (installed a number fid n).fs.inodes[old.inode]? = some m) (hpos : 0 < m.fidRefs) :
    Served a { installed a number fid n with
      fs := (installed a number fid n).fs.released old.inode m } where
  reached := (installed_reached a number hn hle).trans
    (released_reached ((installed_reached a number hn hle).wellFormed hw) hm hpos)
  device := .withFids _ _
  counted := by
    intro _
    refine ⟨fun i => ?_, fun h => h.insert (hplace h) fid, ?_⟩
    · have hrefs := Filesystem.retained_refsOf hn i
      have hrefs' := Filesystem.released_refsOf hm hpos i
      have hheld := held_insert_of_some fid hold i
      have hinstalled : (installed a number fid n).fs.refsOf i =
        (a.fs.retained fid.inode n).refsOf i := rfl
      show ((installed a number fid n).fs.released old.inode m).refsOf i + a.session.held i =
        a.fs.refsOf i + (a.session.withFids _).held i
      omega
    · have htags := released_tags hm hpos (some a.session.session)
      exact htags

/-- A counted old fid can be released. -/
theorem old_counted {a : Activation} (ha : Held a) {number : UInt32} {fid old : Fid} {n : Inode}
    (hn : a.fs.inodes[fid.inode]? = some n) (hold : a.session.fids[number]? = some old) :
    ∃ m, (installed a number fid n).fs.inodes[old.inode]? = some m ∧ 0 < m.fidRefs := by
  have hrefs := Filesystem.retained_refsOf hn old.inode
  have hheld := ha old.inode
  have hone := held_pos hold
  have hpos : 0 < (installed a number fid n).fs.refsOf old.inode := by
    show 0 < (a.fs.retained fid.inode n).refsOf old.inode
    omega
  obtain ⟨m, hm, heq⟩ := Filesystem.get_of_refsOf_pos hpos
  exact ⟨m, hm, by omega⟩

/-- What installing a fid establishes. -/
def Installs (a : Activation) (number : UInt32) (fid : Fid) (t : Activation) : Prop :=
  Served a t ∧ t.session = a.session.withFids (a.session.fids.insert number fid)

theorem installFid_yields {a : Activation} (hw : WellFormed a.fs) (ha : Held a)
    {number : UInt32} {fid : Fid} {n : Inode} (hn : a.fs.inodes[fid.inode]? = some n)
    (hle : n.fidRefs + 1 ≤ u32Max) (hplace : a.session.FidsBounded → a.session.Vacant number) :
    (installFid number fid).Yields a fun _ t => Installs a number fid t := by
  cases hold : a.session.fids[number]? with
  | none =>
    refine ⟨(), installed a number fid n, ?_, installed_served hn hle hplace hold, rfl⟩
    rw [installFid_eq hn hle, hold]
    rfl
  | some old =>
    obtain ⟨m, hm, hpos⟩ := old_counted ha hn hold
    refine ⟨(), _, ?_, replaced_served hw hn hle hplace hold hm hpos, rfl⟩
    rw [installFid_eq hn hle, hold]
    exact onFs_ok (Filesystem.releaseFid_yields
      ((installed_reached a number hn hle).wellFormed hw) hm hpos)

/-- It fails at once, or only because a fid is not counted. -/
theorem installFid_settles {a : Activation} (hw : WellFormed a.fs) {number : UInt32} {fid : Fid}
    (hplace : a.session.FidsBounded → a.session.Vacant number) :
    (installFid number fid).Settles a (Torn a) fun _ t => Installs a number fid t := by
  by_cases hretain : ∃ n, a.fs.inodes[fid.inode]? = some n ∧ n.fidRefs + 1 ≤ u32Max
  · obtain ⟨n, hn, hle⟩ := hretain
    by_cases ha : Held a
    · exact (installFid_yields hw ha hn hle hplace).settles
    cases hold : a.session.fids[number]? with
    | none =>
      have heq : installFid number fid a = (.ok (), installed a number fid n) := by
        rw [installFid_eq hn hle, hold]
        rfl
      rw [Op.Settles, heq]
      exact ⟨installed_served hn hle hplace hold, rfl⟩
    | some old =>
      have heq : installFid number fid a =
          calling (Filesystem.releaseFid old.inode) (installed a number fid n) := by
        rw [installFid_eq hn hle, hold]
      have hw' := (installed_reached a number hn hle).wellFormed hw
      have hends := onFs_ends errno (a := installed a number fid n)
        (Filesystem.releaseFid_ends hw' old.inode)
      unfold Op.Ends at hends
      unfold Op.Settles
      rw [heq, calling]
      split
      next v t hx =>
        rw [hx] at hends
        obtain ⟨fs', ⟨m, hm, hpos, rfl⟩, rfl⟩ := hends
        exact ⟨replaced_served hw hn hle hplace hold hm hpos, rfl⟩
      next e t hx =>
        rw [hx] at hends
        subst hends
        exact .inr ⟨⟨installed_reached a number hn hle, .withFids _ _,
          fun h => absurd h ha⟩, fun h => absurd h ha⟩
      next t hx =>
        rw [hx] at hends
        exact hends
  · have hends := onFs_ends errno (Filesystem.retainFid_ends a.fs fid.inode)
    refine Op.Settles.bind hends.settles fun v t hpost => ?_
    obtain ⟨fs', ⟨n, hn, hle, -⟩, -⟩ := hpost
    exact absurd ⟨n, hn, hle⟩ hretain

/-! ## Releasing all fids -/

/-- The number of listed fids that name an inode. -/
def countOf (fids : List (UInt32 × Fid)) (i : InodeId) : Nat :=
  (fids.map fun p => if p.2.inode = i then 1 else 0).sum

theorem held_eq_countOf (s : NinePSession) (i : InodeId) : s.held i = countOf s.fids.toList i :=
  rfl

theorem countOf_cons (p : UInt32 × Fid) (rest : List (UInt32 × Fid)) (i : InodeId) :
    countOf (p :: rest) i = (if p.2.inode = i then 1 else 0) + countOf rest i := by
  rw [countOf, List.map_cons, List.sum_cons, countOf]

/-- The session is the same, and the namespace moved by public calls. -/
def Moves (a t : Activation) : Prop := t.session = a.session ∧ a.fs.Reached t.fs

theorem Moves.refl (a : Activation) : Moves a a := ⟨rfl, .refl _⟩

theorem Moves.trans {a t u : Activation} (h : Moves a t) (h' : Moves t u) : Moves a u :=
  ⟨h'.1.trans h.1, h.2.trans h'.2⟩

theorem releaseEach_settles (fids : List (UInt32 × Fid)) : ∀ {a : Activation},
    WellFormed a.fs → (releaseEach fids).Settles a (Moves a) fun _ t => Moves a t := by
  induction fids with
  | nil => exact fun _ => Moves.refl _
  | cons p rest ih =>
    intro a hw
    have hends := onFs_ends (fun _ => ProtocolError.invariant)
      (Filesystem.releaseFid_ends hw p.2.inode)
    refine Op.Settles.bind hends.settles fun v t hpost => .inr ?_
    obtain ⟨fs', ⟨n, hn, hpos, rfl⟩, rfl⟩ := hpost
    have hmoves : Moves a { a with fs := a.fs.released p.2.inode n } :=
      ⟨rfl, released_reached hw hn hpos⟩
    have hrest := ih (a := { a with fs := a.fs.released p.2.inode n }) (hmoves.2.wellFormed hw)
    refine ⟨?_, .inr hmoves⟩
    unfold Op.Settles at hrest ⊢
    split
    next hx => rw [hx] at hrest; exact hmoves.trans hrest
    next hx =>
      rw [hx] at hrest
      exact hrest.imp_right fun h => hmoves.trans h
    next hx => rw [hx] at hrest; exact hrest

/-- Counted fids are released without failing. -/
theorem releaseEach_yields (fids : List (UInt32 × Fid)) : ∀ {a : Activation},
    WellFormed a.fs → (∀ i, countOf fids i ≤ a.fs.refsOf i) →
      (releaseEach fids).Yields a fun _ t => Moves a t ∧
        (∀ i, t.fs.refsOf i + countOf fids i = a.fs.refsOf i) ∧ a.fs.TagsFrom t.fs none := by
  induction fids with
  | nil =>
    intro a _ _
    exact Op.yields_pure ⟨.refl a, fun _ => rfl, fun l hl => .inr ⟨l, hl, rfl⟩⟩
  | cons p rest ih =>
    intro a hw hcounted
    have hp := hcounted p.2.inode
    rw [countOf_cons, if_pos rfl] at hp
    obtain ⟨n, hn, hrefs⟩ := Filesystem.get_of_refsOf_pos (show 0 < a.fs.refsOf p.2.inode by omega)
    have hpos : 0 < n.fidRefs := by omega
    have hmoves : Moves a { a with fs := a.fs.released p.2.inode n } :=
      ⟨rfl, released_reached hw hn hpos⟩
    have hreleased := Filesystem.released_refsOf hn hpos
    have hrest : ∀ i, countOf rest i ≤ (a.fs.released p.2.inode n).refsOf i := by
      intro i
      have hi := hcounted i
      have hr := hreleased i
      rw [countOf_cons] at hi
      omega
    refine Op.yields_step (onFs_ok (Filesystem.releaseFid_yields hw hn hpos)) ?_
    refine (ih (a := { a with fs := a.fs.released p.2.inode n }) (hmoves.2.wellFormed hw)
      hrest).mono ?_
    rintro _ t ⟨ht, hcounts, htags⟩
    refine ⟨hmoves.trans ht, fun i => ?_, (released_tags hn hpos none).trans htags⟩
    have hi : t.fs.refsOf i + countOf rest i = (a.fs.released p.2.inode n).refsOf i := hcounts i
    have hr := hreleased i
    rw [countOf_cons]
    omega

/-- What releasing all fids establishes. -/
def Releases (a t : Activation) : Prop :=
  Served a t ∧ t.session = a.session.withFids ∅ ∧
    ∀ l ∈ t.fs.locks, l.session ≠ a.session.session

theorem releaseSessionLocks_served {a : Activation} (hw : WellFormed a.fs) :
    Served a { a with
      fs := { a.fs with locks := a.fs.locks.filter (·.session ≠ a.session.session) } } :=
  Served.call (c := .releaseSessionLocks a.session.session) hw rfl (.inl rfl)

theorem not_mem_releaseSessionLocks (fs : Filesystem) (session : Nat) :
    ∀ l ∈ ({ fs with locks := fs.locks.filter (·.session ≠ session) } : Filesystem).locks,
      l.session ≠ session := by
  intro l hl
  simpa using (List.mem_filter.mp hl).2

theorem releaseFids_eq (a : Activation) :
    releaseFids a = ((do
      releaseEach a.session.fids.toList
      onFs (fun _ => .invariant) (Filesystem.releaseSessionLocks a.session.session) :
        SessionOp ProtocolError Unit) { a with session := a.session.withFids ∅ }) := rfl

/-- The fids are out of the table before any of them is released. -/
theorem emptied_served {a t : Activation} (hmoves : Moves { a with session := a.session.withFids ∅ } t)
    (hcounts : Held a → (∀ i, t.fs.refsOf i + a.session.held i = a.fs.refsOf i) ∧
      a.fs.TagsFrom t.fs none) : Served a t where
  reached := hmoves.2
  device := by
    rw [hmoves.1]
    exact .withFids _ _
  counted := by
    intro ha
    obtain ⟨hrefs, htags⟩ := hcounts ha
    refine ⟨fun i => ?_, fun _ => ?_, htags.weaken _⟩
    · have hheld : t.session.held i = 0 := by rw [hmoves.1, held_empty]
      have hr := hrefs i
      omega
    · rw [hmoves.1]
      exact .empty _

theorem releaseFids_yields {a : Activation} (hw : WellFormed a.fs) (ha : Held a) :
    releaseFids.Yields a fun _ t => Releases a t := by
  have heach := releaseEach_yields a.session.fids.toList
    (a := { a with session := a.session.withFids ∅ }) hw ha
  have hyields : (do
      releaseEach a.session.fids.toList
      onFs (fun _ => .invariant) (Filesystem.releaseSessionLocks a.session.session) :
        SessionOp ProtocolError Unit).Yields { a with session := a.session.withFids ∅ }
          fun _ t => Releases a t := by
    refine heach.bind ?_
    rintro _ t ⟨hmoves, hrefs, htags⟩
    have hserved := emptied_served hmoves fun _ => ⟨hrefs, htags⟩
    have hlocks := releaseSessionLocks_served (hmoves.2.wellFormed hw)
    have hsession : t.session.session = a.session.session := by rw [hmoves.1]; rfl
    rw [hsession] at hlocks
    exact ⟨(), _, rfl, hserved.trans hlocks, hmoves.1, not_mem_releaseSessionLocks t.fs _⟩
  obtain ⟨_, t, ht, hpost⟩ := hyields
  exact ⟨(), t, (releaseFids_eq a).trans ht, hpost⟩

theorem releaseFids_settles {a : Activation} (hw : WellFormed a.fs) :
    releaseFids.Settles a (fun t => Served a t ∧ ¬Held a) fun _ t => Releases a t := by
  by_cases ha : Held a
  · exact (releaseFids_yields hw ha).settles
  have hserved : ∀ {t : Activation}, Moves { a with session := a.session.withFids ∅ } t →
      Served a t := fun hmoves => emptied_served hmoves fun h => absurd h ha
  have heach := releaseEach_settles a.session.fids.toList
    (a := { a with session := a.session.withFids ∅ }) hw
  have hsettles : (do
      releaseEach a.session.fids.toList
      onFs (fun _ => .invariant) (Filesystem.releaseSessionLocks a.session.session) :
        SessionOp ProtocolError Unit).Settles { a with session := a.session.withFids ∅ }
          (Moves { a with session := a.session.withFids ∅ }) fun _ t => Releases a t := by
    refine Op.Settles.bind heach fun _ t hmoves => .inl ?_
    have hlocks := releaseSessionLocks_served (hmoves.2.wellFormed hw)
    have hsession : t.session.session = a.session.session := by rw [hmoves.1]; rfl
    rw [hsession] at hlocks
    exact ⟨(), _, rfl, (hserved hmoves).trans hlocks, hmoves.1,
      not_mem_releaseSessionLocks t.fs _⟩
  unfold Op.Settles at hsettles ⊢
  rw [releaseFids_eq a]
  split
  next hx => rw [hx] at hsettles; exact hsettles
  next hx =>
    rw [hx] at hsettles
    rcases hsettles with rfl | hmoves
    · exact .inr ⟨hserved (.refl _), ha⟩
    · exact .inr ⟨hserved hmoves, ha⟩
  next hx => rw [hx] at hsettles; exact hsettles

end Riscbox

import Riscbox.Filesystem.References
import Riscbox.Protocol.Reply
import Riscbox.Protocol.Session

/-!
# What a request may do

`Served` relates the states before and after a request, whether it was answered or
refused: the namespace moved by public calls, and as long as the fids of the session are
counted, counts and fids moved together.  A refused request leaves the state as it was,
or is `Torn`: that needs a count at its limit, or fids that are not counted.
-/

namespace Riscbox

namespace NinePSession

/-- The number of fids that name an inode. -/
def held (s : NinePSession) (i : InodeId) : Nat :=
  BTreeMap.total (fun _ fid => if fid.inode = i then 1 else 0) s.fids

/-- The message size is one that a version request agreed. -/
def Sized (s : NinePSession) : Prop := 256 ≤ s.msize ∧ s.msize ≤ maxMessageSize

def FidsBounded (s : NinePSession) : Prop := s.fids.size ≤ maxFids ∧ s.fids[NOFID]? = none

/-- What no request changes. -/
structure SameDevice (s s' : NinePSession) : Prop where
  identity : s'.identity = s.identity
  generation : s'.generation = s.generation
  session : s'.session = s.session
  closed : s'.closed = s.closed
  sized : s.Sized → s'.Sized

theorem SameDevice.refl (s : NinePSession) : SameDevice s s := ⟨rfl, rfl, rfl, rfl, id⟩

theorem SameDevice.trans {s₁ s₂ s₃ : NinePSession} (h : SameDevice s₁ s₂)
    (h' : SameDevice s₂ s₃) : SameDevice s₁ s₃ where
  identity := h'.identity.trans h.identity
  generation := h'.generation.trans h.generation
  session := h'.session.trans h.session
  closed := h'.closed.trans h.closed
  sized := h'.sized ∘ h.sized

def withFids (s : NinePSession) (fids : BTreeMap UInt32 Fid) : NinePSession :=
  { s with fids := fids }

theorem SameDevice.withFids (s : NinePSession) (fids : BTreeMap UInt32 Fid) :
    SameDevice s (s.withFids fids) := ⟨rfl, rfl, rfl, rfl, id⟩

theorem held_pos {s : NinePSession} {number : UInt32} {fid : Fid}
    (h : s.fids[number]? = some fid) : 0 < s.held fid.inode := by
  have hle := BTreeMap.le_total (fun _ (f : Fid) => if f.inode = fid.inode then 1 else 0) h
  rw [if_pos rfl] at hle
  exact hle

theorem held_empty (s : NinePSession) (i : InodeId) : (s.withFids ∅).held i = 0 :=
  BTreeMap.total_empty _

theorem held_insert_of_none {s : NinePSession} {number : UInt32} (fid : Fid)
    (h : s.fids[number]? = none) (i : InodeId) :
    (s.withFids (s.fids.insert number fid)).held i =
      s.held i + if fid.inode = i then 1 else 0 := by
  have ht := BTreeMap.total_insert_of_none (fun _ (f : Fid) => if f.inode = i then 1 else 0)
    fid h
  rw [Nat.add_comm] at ht
  exact ht

theorem held_insert_of_some {s : NinePSession} {number : UInt32} {old : Fid} (fid : Fid)
    (h : s.fids[number]? = some old) (i : InodeId) :
    (s.withFids (s.fids.insert number fid)).held i + (if old.inode = i then 1 else 0) =
      s.held i + if fid.inode = i then 1 else 0 :=
  BTreeMap.total_insert_of_some (fun _ (f : Fid) => if f.inode = i then 1 else 0) fid h

theorem held_erase {s : NinePSession} {number : UInt32} {old : Fid}
    (h : s.fids[number]? = some old) (i : InodeId) :
    (s.withFids (s.fids.erase number)).held i + (if old.inode = i then 1 else 0) = s.held i :=
  BTreeMap.total_erase_of_some (fun _ (f : Fid) => if f.inode = i then 1 else 0) h

/-- There is a place for a fid number: a new one below the limit, or one already used. -/
def Vacant (s : NinePSession) (number : UInt32) : Prop :=
  number ≠ NOFID ∧ (s.fids[number]?.isSome = true ∨ s.fids.size < maxFids)

theorem FidsBounded.insert {s : NinePSession} (h : s.FidsBounded) {number : UInt32}
    (hplace : s.Vacant number) (fid : Fid) :
    (s.withFids (s.fids.insert number fid)).FidsBounded := by
  constructor
  · show (s.fids.insert number fid).size ≤ maxFids
    cases hold : s.fids[number]? with
    | some old =>
      rw [BTreeMap.size_insert_of_some fid hold]
      exact h.1
    | none =>
      rw [BTreeMap.size_insert_of_none fid hold]
      rcases hplace.2 with hsome | hlt
      · rw [hold] at hsome
        cases hsome
      · exact hlt
  · show (s.fids.insert number fid)[NOFID]? = none
    rw [BTreeMap.get_insert_of_ne _ _ hplace.1, h.2]

theorem FidsBounded.vacant {s : NinePSession} (h : s.FidsBounded) {number : UInt32} {fid : Fid}
    (hfid : s.fids[number]? = some fid) : s.Vacant number := by
  refine ⟨?_, .inl (by rw [hfid]; rfl)⟩
  rintro rfl
  rw [h.2] at hfid
  cases hfid

theorem FidsBounded.erase {s : NinePSession} (h : s.FidsBounded) {number : UInt32} {fid : Fid}
    (hfid : s.fids[number]? = some fid) : (s.withFids (s.fids.erase number)).FidsBounded := by
  constructor
  · show (s.fids.erase number).size ≤ maxFids
    rw [BTreeMap.size_erase_of_some hfid]
    have := h.1
    omega
  · show (s.fids.erase number)[NOFID]? = none
    rw [BTreeMap.get_erase_of_ne _ (h.vacant hfid).1, h.2]

theorem FidsBounded.empty (s : NinePSession) : (s.withFids ∅).FidsBounded := by
  constructor
  · exact Nat.zero_le _
  · show (∅ : BTreeMap UInt32 Fid)[NOFID]? = none
    simp

end NinePSession

open NinePSession
open Filesystem (WellFormed Call Answer)

/-- The fids of the session are among those that the namespace counts. -/
def Held (a : Activation) : Prop := ∀ i, a.session.held i ≤ a.fs.refsOf i

/-- Some count cannot be raised. -/
def Saturated (fs : Filesystem) : Prop := ∃ (i : InodeId) (n : Inode), fs.inodes[i]? = some n ∧ u32Max ≤ n.fidRefs

/-- Counts and fids change together. -/
structure Counted (a t : Activation) : Prop where
  refs : ∀ i, t.fs.refsOf i + a.session.held i = a.fs.refsOf i + t.session.held i
  fids : a.session.FidsBounded → t.session.FidsBounded
  tags : a.fs.TagsFrom t.fs (some a.session.session)

structure Served (a t : Activation) : Prop where
  reached : a.fs.Reached t.fs
  device : SameDevice a.session t.session
  counted : Held a → Counted a t

/-- What a refused request may leave behind. -/
def Torn (a t : Activation) : Prop := Served a t ∧ (Held a → Saturated a.fs)

theorem Counted.refl (a : Activation) : Counted a a :=
  ⟨fun _ => rfl, id, fun l hl => .inr ⟨l, hl, rfl⟩⟩

theorem Counted.held {a t : Activation} (h : Counted a t) (ha : Held a) : Held t := by
  intro i
  have hi := ha i
  have hrefs := h.refs i
  omega

theorem Served.refl (a : Activation) : Served a a := ⟨.refl _, .refl _, fun _ => .refl a⟩

theorem Served.trans {a t u : Activation} (h : Served a t) (h' : Served t u) : Served a u where
  reached := h.reached.trans h'.reached
  device := h.device.trans h'.device
  counted := by
    intro ha
    have hc := h.counted ha
    have hc' := h'.counted (hc.held ha)
    refine ⟨fun i => ?_, hc'.fids ∘ hc.fids, ?_⟩
    · have h₁ := hc.refs i
      have h₂ := hc'.refs i
      omega
    · have htags := hc'.tags
      rw [h.device.session] at htags
      exact hc.tags.trans htags

theorem Served.torn_of_unheld {a t : Activation} (h : Served a t) (ha : ¬Held a) : Torn a t :=
  ⟨h, fun hheld => absurd hheld ha⟩

/-! ## Calls on the namespace -/

theorem onFs_snd {ε α : Type} (translate : FilesystemError → ε) (x : FsOp α) (a : Activation) :
    (onFs translate x a).2 = { a with fs := (x a.fs).2 } := rfl

theorem onFs_ends {ε α : Type} (translate : FilesystemError → ε) {x : FsOp α} {a : Activation}
    {post : α → Filesystem → Prop} (h : x.Ends a.fs post) :
    (onFs translate x).Ends a fun v t => ∃ fs', post v fs' ∧ t = { a with fs := fs' } := by
  unfold Op.Ends at h
  unfold Op.Ends onFs
  split at h
  next v fs' hx =>
    rw [hx]
    exact ⟨fs', h, rfl⟩
  next e fs' hx =>
    rw [hx]
    exact congrArg (Activation.mk a.session) h
  next => exact h.elim

theorem onFs_ok {ε α : Type} {translate : FilesystemError → ε} {x : FsOp α} {a : Activation}
    {v : α} {fs' : Filesystem} (h : x a.fs = (.ok v, fs')) :
    onFs translate x a = (.ok v, { a with fs := fs' }) := by
  rw [onFs, h]
  rfl

/-- A public call that counts no fids, made for the session. -/
theorem Served.call {a : Activation} (hw : WellFormed a.fs) {c : Call}
    (hcounts : c.counts = false)
    (htag : c.tag = none ∨ c.tag = some a.session.session) :
    Served a { a with fs := c.after a.fs } where
  reached := .call (by rintro rfl; cases hcounts) a.fs
  device := .refl _
  counted := by
    intro _
    have he := c.effect hw
    refine ⟨fun i => by rw [he.refsOf_eq hw hcounts], id, ?_⟩
    have htags := he.tags
    rcases htag with hnone | hsome
    · rw [hnone] at htags
      exact htags.weaken _
    · rw [hsome] at htags
      exact htags

/-- The same, from what the operation behind the call is known to do. -/
theorem calling_ends {a : Activation} (hw : WellFormed a.fs) {α : Type} {x : FsOp α}
    {f : α → Answer} {c : Call} {post : α → Filesystem → Prop}
    (hrun : c.run = f <$> x) (hcounts : c.counts = false)
    (htag : c.tag = none ∨ c.tag = some a.session.session) (h : x.Ends a.fs post) :
    (calling x).Ends a fun v t => post v t.fs ∧ t.session = a.session ∧ Served a t := by
  have hafter : c.after a.fs = (x a.fs).2 := by
    rw [Call.after, Op.after, hrun, Op.map_snd]
  have hserved := Served.call hw hcounts htag
  rw [hafter] at hserved
  have hends := onFs_ends errno h
  unfold calling
  unfold Op.Ends at hends ⊢
  split at hends
  next v t hx =>
    obtain ⟨fs', hpost, rfl⟩ := hends
    have hfs : fs' = (x a.fs).2 := by
      have hsnd := congrArg Prod.snd hx
      rw [onFs_snd] at hsnd
      exact (congrArg Activation.fs hsnd).symm
    exact ⟨hpost, rfl, hfs ▸ hserved⟩
  next => exact hends
  next => exact hends.elim

/-! ## Fids -/

theorem unsaturated_retain {a : Activation} {id : InodeId} {n : Inode}
    (hn : a.fs.inodes[id]? = some n) (hfull : ¬n.fidRefs + 1 ≤ u32Max) : Saturated a.fs :=
  ⟨id, n, hn, by omega⟩

/-- The state after a fid is installed and its count raised. -/
def installed (a : Activation) (number : UInt32) (fid : Fid) (n : Inode) : Activation where
  session := a.session.withFids (a.session.fids.insert number fid)
  fs := a.fs.retained fid.inode n

theorem installed_reached (a : Activation) (number : UInt32) {fid : Fid} {n : Inode}
    (hn : a.fs.inodes[fid.inode]? = some n) (hle : n.fidRefs + 1 ≤ u32Max) :
    a.fs.Reached (installed a number fid n).fs := by
  have hafter : (Call.retainFid fid.inode).after a.fs =
      a.fs.retained fid.inode n := by
    rw [Call.after, Op.after, Call.run, Op.map_snd,
      Filesystem.retainFid_yields hn hle]
  have hreached : a.fs.Reached ((Call.retainFid fid.inode).after a.fs) :=
    .call (by simp) a.fs
  rw [hafter] at hreached
  exact hreached

theorem released_reached {fs : Filesystem} (hw : WellFormed fs) {id : InodeId} {n : Inode}
    (hn : fs.inodes[id]? = some n) (hpos : 0 < n.fidRefs) : fs.Reached (fs.released id n) := by
  have hafter : (Call.releaseFid id).after fs = fs.released id n := by
    rw [Call.after, Op.after, Call.run, Op.map_snd,
      Filesystem.releaseFid_yields hw hn hpos]
  have hreached : fs.Reached ((Call.releaseFid id).after fs) := .call (by simp) fs
  rw [hafter] at hreached
  exact hreached

theorem released_tags {fs : Filesystem} {id : InodeId} {n : Inode}
    (hn : fs.inodes[id]? = some n) (hpos : 0 < n.fidRefs) (session : Option Nat) :
    fs.TagsFrom (fs.released id n) session :=
  (Filesystem.Effect.release hn hpos).tags.weaken session

end Riscbox

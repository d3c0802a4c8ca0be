import Riscbox.Protocol.Retiring

/-!
# Sessions that share a namespace

Any number of sessions of one namespace, and the host beside them.  A run is any list of
actions, each at any moment.  As long as the host leaves counts and locks to the sessions,
every count is the number of fids that name the inode.
-/

namespace Riscbox

open NinePSession
open Filesystem (WellFormed Call Effect)

/-- A namespace and its sessions, in the order of their creation. -/
structure Shared where
  fs : Filesystem
  sessions : List NinePSession

inductive Action where
  | host (call : Call)
  | connect
  | submit (session : Nat) (bytes : List UInt8) (capacity : Nat)
  | reset (session : Nat)
  | close (session : Nat)

/-- The host does not count fids or take locks. -/
def Action.Outside : Action → Prop
  | .host call => (∀ id, call ≠ .retainFid id) ∧ (∀ id, call ≠ .releaseFid id) ∧
      ∀ requested, call ≠ .tryLock requested
  | _ => True

namespace Shared

def start (identity : Nat) (limits : Limits) (now : UInt64) : Shared where
  fs := .new identity limits now
  sessions := []

/-- A call on one session; there is nothing to do where there is none. -/
def onSession {ε α : Type} (s : Shared) (k : Nat) (x : SessionOp ε α) : Shared :=
  match s.sessions[k]? with
  | none => s
  | some session =>
    { fs := (x { session := session, fs := s.fs }).2.fs
      sessions := s.sessions.set k (x { session := session, fs := s.fs }).2.session }

def connect (s : Shared) : Shared :=
  match (NinePSession.new s.fs).1 with
  | .ok session =>
    { fs := (NinePSession.new s.fs).2, sessions := s.sessions ++ [session] }
  | _ => { s with fs := (NinePSession.new s.fs).2 }

def step (s : Shared) : Action → Shared
  | .host call => { s with fs := call.after s.fs }
  | .connect => s.connect
  | .submit k bytes capacity => s.onSession k (submit bytes capacity)
  | .reset k => s.onSession k NinePSession.reset
  | .close k => s.onSession k NinePSession.close

def run (s : Shared) (actions : List Action) : Shared := actions.foldl step s

/-- A session together with the namespace. -/
def activate (s : Shared) (x : NinePSession) : Activation := { session := x, fs := s.fs }

/-! ## What every action keeps -/

/-- What holds whatever the host calls. -/
structure Stable (s : Shared) : Prop where
  wellFormed : WellFormed s.fs
  identity : ∀ x ∈ s.sessions, x.identity = s.fs.identity
  sized : ∀ x ∈ s.sessions, x.Sized

variable {s : Shared} {k : Nat} {x : NinePSession} {t : Activation}

/-- A call on one session changes that session and the namespace. -/
def replaced (s : Shared) (k : Nat) (t : Activation) : Shared where
  fs := t.fs
  sessions := s.sessions.set k t.session

theorem onSession_of_some {ε α : Type} (h : s.sessions[k]? = some x) (f : SessionOp ε α) :
    s.onSession k f = s.replaced k (f (s.activate x)).2 := by
  rw [onSession, h]
  rfl

theorem onSession_of_none {ε α : Type} (h : s.sessions[k]? = none) (f : SessionOp ε α) :
    s.onSession k f = s := by
  rw [onSession, h]

theorem mem_replaced {y : NinePSession} (h : y ∈ (s.replaced k t).sessions) :
    y = t.session ∨ ∃ j, j ≠ k ∧ s.sessions[j]? = some y := by
  obtain ⟨j, hj⟩ := List.mem_iff_getElem?.mp h
  have hset : (s.sessions.set k t.session)[j]? = some y := hj
  rw [List.getElem?_set] at hset
  by_cases hkj : k = j
  · rw [if_pos hkj] at hset
    split at hset
    next => exact .inl (Option.some.inj hset).symm
    next => cases hset
  · rw [if_neg hkj] at hset
    exact .inr ⟨j, Ne.symm hkj, hset⟩

theorem Stable.acted (h : Stable s) (hx : s.sessions[k]? = some x)
    (hacted : Acted (s.activate x) t) : Stable (s.replaced k t) := by
  have hmem := List.mem_of_getElem? hx
  have hframe := hacted.reached.frame h.wellFormed
  constructor
  case wellFormed => exact hacted.reached.wellFormed h.wellFormed
  case identity =>
    intro y hy
    have hidentity : (s.replaced k t).fs.identity = s.fs.identity := hframe.identity
    rw [hidentity]
    rcases mem_replaced hy with rfl | ⟨j, -, hj⟩
    · exact hacted.identity.trans (h.identity x hmem)
    · exact h.identity y (List.mem_of_getElem? hj)
  case sized =>
    intro y hy
    rcases mem_replaced hy with rfl | ⟨j, -, hj⟩
    · exact hacted.sized (h.sized x hmem)
    · exact h.sized y (List.mem_of_getElem? hj)

/-- The host moves the namespace, and its identity stays. -/
theorem host_identity {fs : Filesystem} (hw : WellFormed fs) (call : Call) :
    (call.after fs).identity = fs.identity := by
  have he := call.effect hw
  by_cases hreset : call = .reset
  · subst hreset
    rcases he.of_reset with hwrites | ⟨hidentity, -⟩
    · exact hwrites.frame.identity
    · exact hidentity
  · exact (he.frame hreset).identity

theorem Stable.host (h : Stable s) (call : Call) : Stable (s.step (.host call)) where
  wellFormed := (call.effect h.wellFormed).wellFormed h.wellFormed
  identity := fun y hy => (h.identity y hy).trans (host_identity h.wellFormed call).symm
  sized := h.sized

/-- A session as it is created. -/
def created (fs : Filesystem) : NinePSession where
  identity := fs.identity
  generation := fs.generation
  session := fs.nextSession
  fids := ∅
  msize := maxMessageSize
  negotiated := false
  closed := false

theorem new_ends (fs : Filesystem) : NinePSession.new.Ends fs fun x fs' =>
    x = created fs ∧ fs' = { fs with nextSession := fs.nextSession + 1 } := by
  unfold NinePSession.new
  refine Op.ends_get ((Filesystem.allocateSession_ends fs).bind ?_)
  rintro id fs' ⟨rfl, -, rfl⟩
  exact Op.yields_pure ⟨rfl, rfl⟩

/-- The state after a session is created. -/
def extended (s : Shared) : Shared where
  fs := { s.fs with nextSession := s.fs.nextSession + 1 }
  sessions := s.sessions ++ [created s.fs]

theorem connect_eq (s : Shared) : s.connect = s ∨ s.connect = s.extended := by
  have hends := new_ends s.fs
  unfold Op.Ends at hends
  unfold connect
  cases hx : NinePSession.new s.fs with
  | mk r fs' =>
    rw [hx] at hends
    cases r with
    | ok x =>
      obtain ⟨rfl, rfl⟩ := hends
      exact .inr rfl
    | err e =>
      subst hends
      exact .inl rfl
    | panic => exact hends.elim

theorem extended_wellFormed (hw : WellFormed s.fs) : WellFormed s.extended.fs := by
  have tree : Filesystem.SameTree s.fs s.extended.fs :=
    ⟨rfl, rfl, rfl, rfl, rfl, rfl, rfl, rfl, rfl⟩
  exact tree.wellFormed hw

theorem Stable.connect (h : Stable s) : Stable s.connect := by
  rcases connect_eq s with heq | heq
  · rw [heq]
    exact h
  rw [heq]
  constructor
  case wellFormed => exact extended_wellFormed h.wellFormed
  case identity =>
    intro y hy
    rcases List.mem_append.mp hy with hy | hy
    · exact h.identity y hy
    · rw [List.mem_singleton.mp hy]
      rfl
  case sized =>
    intro y hy
    rcases List.mem_append.mp hy with hy | hy
    · exact h.sized y hy
    · rw [List.mem_singleton.mp hy]
      exact ⟨show 256 ≤ maxMessageSize by decide, Nat.le_refl _⟩

/-- What the actions of a session have in common. -/
theorem session_cases {P : Shared → Prop} {action : Action} (h : Stable s) (hs : P s)
    (hacted : ∀ {k : Nat} {x : NinePSession} {t : Activation}, s.sessions[k]? = some x →
      Acted (s.activate x) t → P (s.replaced k t))
    (hhost : ∀ call, action = .host call → P (s.step (.host call))) (hconnect : P s.connect) :
    P (s.step action) := by
  have hsession : ∀ {ε α : Type} (k : Nat) (f : SessionOp ε α),
      (∀ x ∈ s.sessions, Acted (s.activate x) (f (s.activate x)).2) → P (s.onSession k f) := by
    intro ε α k f hf
    cases hx : s.sessions[k]? with
    | none =>
      rw [onSession_of_none hx]
      exact hs
    | some x =>
      rw [onSession_of_some hx]
      exact hacted hx (hf x (List.mem_of_getElem? hx))
  cases action with
  | host call => exact hhost call rfl
  | connect => exact hconnect
  | submit k bytes capacity =>
    exact hsession k _ fun x hx => submit_acted h.wellFormed (h.sized x hx) bytes capacity
  | reset k => exact hsession k _ fun x _ => reset_acted h.wellFormed
  | close k => exact hsession k _ fun x _ => close_acted h.wellFormed

theorem Stable.step (h : Stable s) (action : Action) : Stable (s.step action) :=
  session_cases h h (fun hx hacted => h.acted hx hacted) (fun call _ => h.host call) h.connect

theorem Stable.run (h : Stable s) (actions : List Action) : Stable (s.run actions) := by
  induction actions generalizing s with
  | nil => exact h
  | cons action actions ih => exact ih (h.step action)

theorem start_stable (identity : Nat) (limits : Limits) (now : UInt64) :
    Stable (start identity limits now) where
  wellFormed := Filesystem.new_wellFormed identity limits now
  identity := fun y hy => by cases hy
  sized := fun y hy => by cases hy

/-! ## Counted sessions -/

/-- The number of fids of all sessions of the namespace that name an inode. -/
def held (s : Shared) (i : InodeId) : Nat :=
  (s.sessions.map fun x => charged (s.activate x) i).sum

/-- What holds while the host releases only fids of its own. -/
structure Covering (s : Shared) : Prop extends Stable s where
  covers : ∀ i, s.held i ≤ s.fs.refsOf i
  past : ∀ x ∈ s.sessions, x.generation ≤ s.fs.generation

/-- What holds while the host leaves counts and locks to the sessions. -/
structure Sound (s : Shared) : Prop extends Stable s where
  bounded : ∀ x ∈ s.sessions, x.FidsBounded
  counted : ∀ i, s.fs.refsOf i = s.held i
  known : ∀ x ∈ s.sessions, x.session < s.fs.nextSession
  distinct : (s.sessions.map (·.session)).Nodup
  past : ∀ x ∈ s.sessions, x.generation ≤ s.fs.generation
  /-- A session that has not seen the namespace has no locks in it. -/
  unlocked : ∀ x ∈ s.sessions, x.generation ≠ s.fs.generation →
    ∀ l ∈ s.fs.locks, l.session ≠ x.session

theorem sum_map_set {α : Type} (f : α → Nat) {l : List α} : ∀ {k : Nat} {x : α} (y : α),
    l[k]? = some x → ((l.set k y).map f).sum + f x = (l.map f).sum + f y := by
  induction l with
  | nil =>
    intro k x y h
    cases h
  | cons z l ih =>
    intro k x y h
    cases k with
    | zero =>
      cases h
      rw [List.set_cons_zero, List.map_cons, List.map_cons, List.sum_cons, List.sum_cons]
      omega
    | succ k =>
      have hl := ih y h
      rw [List.set_cons_succ, List.map_cons, List.map_cons, List.sum_cons, List.sum_cons]
      omega

theorem charged_congr {a b : Activation} (hsession : b.session = a.session)
    (hgeneration : b.fs.generation = a.fs.generation) (i : InodeId) :
    charged b i = charged a i := by
  rw [charged, hsession, hgeneration, charged]

theorem Covering.covered (h : Covering s) (hx : x ∈ s.sessions) : Covered (s.activate x) := by
  intro i
  have hle : charged (s.activate x) i ≤ s.held i :=
    List.single_le_sum (fun _ _ => Nat.zero_le _) _ (List.mem_map_of_mem hx)
  exact hle.trans (h.covers i)

theorem Sound.covering (h : Sound s) : Covering s where
  toStable := h.toStable
  covers := fun i => (h.counted i).ge
  past := h.past

theorem Sound.covered (h : Sound s) (hx : x ∈ s.sessions) : Covered (s.activate x) :=
  h.covering.covered hx

/-- The counts and the fids of all sessions change together. -/
theorem held_replaced (hw : WellFormed s.fs) (hx : s.sessions[k]? = some x)
    (hacted : Acted (s.activate x) t) (hcovered : Covered (s.activate x)) (i : InodeId) :
    (s.replaced k t).fs.refsOf i + s.held i = s.fs.refsOf i + (s.replaced k t).held i := by
  have hgeneration : (s.replaced k t).fs.generation = s.fs.generation :=
    (hacted.reached.frame hw).generation
  have hothers : (s.replaced k t).held i =
      ((s.sessions.set k t.session).map fun y => charged (s.activate y) i).sum := by
    unfold held
    congr 1
    refine List.map_congr_left fun y _ => ?_
    exact charged_congr (a := s.activate y) (b := (s.replaced k t).activate y) rfl hgeneration i
  have hsum := sum_map_set (fun y => charged (s.activate y) i) t.session hx
  have ht : charged (s.activate t.session) i = charged t i :=
    charged_congr (a := t) (b := s.activate t.session) rfl hgeneration.symm i
  have hrefs : (s.replaced k t).fs.refsOf i + charged (s.activate x) i =
      s.fs.refsOf i + charged t i := hacted.counted hcovered i
  have hheld : s.held i = (s.sessions.map fun y => charged (s.activate y) i).sum := rfl
  omega

theorem past_replaced (hpast : ∀ x ∈ s.sessions, x.generation ≤ s.fs.generation)
    (hw : WellFormed s.fs) (hx : s.sessions[k]? = some x) (hacted : Acted (s.activate x) t) :
    ∀ y ∈ (s.replaced k t).sessions, y.generation ≤ (s.replaced k t).fs.generation := by
  have hgeneration : (s.replaced k t).fs.generation = s.fs.generation :=
    (hacted.reached.frame hw).generation
  intro y hy
  rw [hgeneration]
  rcases mem_replaced hy with rfl | ⟨j, -, hj⟩
  · rcases hacted.current with rfl | hcurrent
    · exact hpast x (List.mem_of_getElem? hx)
    · exact hcurrent.le
  · exact hpast y (List.mem_of_getElem? hj)

theorem Covering.acted (h : Covering s) (hx : s.sessions[k]? = some x)
    (hacted : Acted (s.activate x) t) : Covering (s.replaced k t) where
  toStable := h.toStable.acted hx hacted
  covers := by
    intro i
    have hsum := held_replaced h.wellFormed hx hacted (h.covered (List.mem_of_getElem? hx)) i
    have hle := h.covers i
    omega
  past := past_replaced h.past h.wellFormed hx hacted

theorem Sound.session_ne (h : Sound s) {j : Nat} {y : NinePSession}
    (hx : s.sessions[k]? = some x) (hy : s.sessions[j]? = some y) (hne : j ≠ k) :
    y.session ≠ x.session := by
  intro heq
  have hj : (s.sessions.map (·.session))[j]? = some y.session := by
    rw [List.getElem?_map, hy]
    rfl
  have hk : (s.sessions.map (·.session))[k]? = some x.session := by
    rw [List.getElem?_map, hx]
    rfl
  have hlt : j < (s.sessions.map (·.session)).length := (List.getElem?_eq_some_iff.mp hj).1
  exact hne ((List.getElem?_inj hlt h.distinct).mp (by rw [hj, hk, heq]))

/-- The numbers of the sessions stay. -/
theorem numbers_replaced (hx : s.sessions[k]? = some x) (hnumber : t.session.session = x.session) :
    (s.replaced k t).sessions.map (·.session) = s.sessions.map (·.session) := by
  show (s.sessions.set k t.session).map (·.session) = _
  rw [List.map_set, hnumber]
  have hk : (s.sessions.map (·.session))[k]? = some x.session := by
    rw [List.getElem?_map, hx]
    rfl
  obtain ⟨hlt, heq⟩ := List.getElem?_eq_some_iff.mp hk
  rw [← heq, List.set_getElem_self]

theorem Sound.acted (h : Sound s) (hx : s.sessions[k]? = some x)
    (hacted : Acted (s.activate x) t) : Sound (s.replaced k t) := by
  have hmem := List.mem_of_getElem? hx
  have hcovered := h.covered hmem
  have hframe := hacted.reached.frame h.wellFormed
  have hgeneration : (s.replaced k t).fs.generation = s.fs.generation := hframe.generation
  have hnumber : t.session.session = x.session := hacted.number
  constructor
  case toStable => exact h.toStable.acted hx hacted
  case bounded =>
    intro y hy
    rcases mem_replaced hy with rfl | ⟨j, -, hj⟩
    · exact hacted.bounded hcovered (h.bounded x hmem)
    · exact h.bounded y (List.mem_of_getElem? hj)
  case counted =>
    intro i
    have hsum := held_replaced h.wellFormed hx hacted hcovered i
    have hall := h.counted i
    omega
  case known =>
    intro y hy
    refine Nat.lt_of_lt_of_le ?_ hframe.nextSession
    rcases mem_replaced hy with rfl | ⟨j, -, hj⟩
    · rw [hnumber]
      exact h.known x hmem
    · exact h.known y (List.mem_of_getElem? hj)
  case distinct =>
    rw [numbers_replaced hx hnumber]
    exact h.distinct
  case past => exact past_replaced h.past h.wellFormed hx hacted
  case unlocked =>
    intro y hy hstale l hl
    rw [hgeneration] at hstale
    rcases mem_replaced hy with rfl | ⟨j, hjk, hj⟩
    · rcases hacted.current with rfl | hcurrent
      · exact h.unlocked x hmem hstale l hl
      · exact absurd hcurrent hstale
    · rcases hacted.tags hcovered l hl with htag | ⟨l', hl', heq⟩
      · rw [Option.some.inj htag]
        exact (h.session_ne hx hj hjk).symm
      · rw [← heq]
        exact h.unlocked y (List.mem_of_getElem? hj) hstale l' hl'

/-- What a host call may do to the fids, the sessions and the locks. -/
theorem host_effect {fs : Filesystem} (hw : WellFormed fs) {call : Call}
    (hout : (Action.host call).Outside) :
    (fs.nextSession ≤ (call.after fs).nextSession ∧ fs.TagsFrom (call.after fs) none) ∧
      (((call.after fs).generation = fs.generation ∧
          ∀ i, (call.after fs).refsOf i = fs.refsOf i) ∨
        ((call.after fs).generation = fs.generation + 1 ∧ (call.after fs).locks = [] ∧
          ∀ i, (call.after fs).refsOf i = 0)) := by
  obtain ⟨hretain, hrelease, hlock⟩ := hout
  have he := call.effect hw
  have htags := he.tags
  have htag : call.tag = none := by
    cases call with
    | tryLock requested => exact absurd rfl (hlock requested)
    | _ => rfl
  rw [htag] at htags
  by_cases hreset : call = .reset
  · subst hreset
    rcases he.of_reset with hwrites | ⟨-, hgeneration, hnext, hlocks, hrefs⟩
    · exact ⟨⟨hwrites.frame.nextSession, htags⟩,
        .inl ⟨hwrites.frame.generation, hwrites.refsOf_eq hw⟩⟩
    · exact ⟨⟨hnext.ge, htags⟩, .inr ⟨hgeneration, hlocks, hrefs⟩⟩
  · have hframe := he.frame hreset
    have hcounts : call.counts = false := by
      cases call with
      | retainFid id => exact absurd rfl (hretain id)
      | releaseFid id => exact absurd rfl (hrelease id)
      | reset => exact absurd rfl hreset
      | _ => rfl
    exact ⟨⟨hframe.nextSession, htags⟩, .inl ⟨hframe.generation, he.refsOf_eq hw hcounts⟩⟩

/-- The host takes away at most the fid that it releases, short of a reset. -/
theorem host_refs {fs fs' : Filesystem} {call : Call} (hw : WellFormed fs)
    (he : Effect fs call fs') :
    (fs'.generation = fs.generation ∧ ∀ i, fs.refsOf i ≤ fs'.refsOf i ∨
        (call = .releaseFid i ∧ fs.refsOf i ≤ fs'.refsOf i + 1)) ∨
      fs'.generation = fs.generation + 1 := by
  cases he with
  | writes w => exact .inl ⟨w.frame.generation, fun i => .inl (w.refsOf_eq hw i).ge⟩
  | retain hn hle =>
    refine .inl ⟨rfl, fun i => .inl ?_⟩
    rw [Filesystem.retained_refsOf hn i]
    exact Nat.le_add_right _ _
  | @release id n hn hpos =>
    refine .inl ⟨(Filesystem.released_frame fs id n).generation, fun i => ?_⟩
    have hrefs := Filesystem.released_refsOf hn hpos i
    by_cases hi : id = i
    · rw [if_pos hi] at hrefs
      exact .inr ⟨by rw [hi], hrefs.ge⟩
    · rw [if_neg hi] at hrefs
      exact .inl (by omega)
  | lock hfree => exact .inl ⟨rfl, fun i => .inl (Nat.le_refl _)⟩
  | unlock requested => exact .inl ⟨rfl, fun i => .inl (Nat.le_refl _)⟩
  | reset hg he =>
    obtain ⟨change, changes, -, -, -, heq, -⟩ := he
    rw [heq]
    exact .inr rfl

/-- The host releases only a fid that is not one of a session. -/
def Fair (s : Shared) (action : Action) : Prop :=
  ∀ id, action = .host (.releaseFid id) → s.held id < s.fs.refsOf id

theorem held_host {call : Call} (hgeneration : (call.after s.fs).generation = s.fs.generation)
    (i : InodeId) : (s.step (.host call)).held i = s.held i := by
  unfold held
  congr 1
  refine List.map_congr_left fun y _ => ?_
  exact charged_congr (a := s.activate y) (b := (s.step (.host call)).activate y) rfl hgeneration i

/-- A new namespace counts no fid of a session. -/
theorem held_renewed (hpast : ∀ x ∈ s.sessions, x.generation ≤ s.fs.generation) {call : Call}
    (hgeneration : (call.after s.fs).generation = s.fs.generation + 1) (i : InodeId) :
    (s.step (.host call)).held i = 0 := by
  refine List.sum_eq_zero fun v hv => ?_
  obtain ⟨y, hy, rfl⟩ := List.mem_map.mp hv
  have hle := hpast y hy
  refine if_neg fun hsame => ?_
  have hsame' : y.generation = (call.after s.fs).generation := hsame
  omega

theorem Covering.host (h : Covering s) {call : Call} (hfair : s.Fair (.host call)) :
    Covering (s.step (.host call)) := by
  have hrefs := host_refs h.wellFormed (call.effect h.wellFormed)
  constructor
  case toStable => exact h.toStable.host call
  case covers =>
    intro i
    have hle := h.covers i
    rcases hrefs with ⟨hgeneration, hkept⟩ | hgeneration
    · rw [held_host hgeneration]
      show s.held i ≤ (call.after s.fs).refsOf i
      rcases hkept i with hkept | ⟨rfl, hkept⟩
      · omega
      · have hlt := hfair i rfl
        omega
    · rw [held_renewed h.past hgeneration]
      exact Nat.zero_le _
  case past =>
    intro y hy
    have hle := h.past y hy
    show y.generation ≤ (call.after s.fs).generation
    rcases hrefs with ⟨hgeneration, -⟩ | hgeneration <;> omega

theorem Sound.host (h : Sound s) {call : Call} (hout : (Action.host call).Outside) :
    Sound (s.step (.host call)) := by
  obtain ⟨⟨hnext, htags⟩, hrest⟩ := host_effect h.wellFormed hout
  constructor
  case toStable => exact h.toStable.host call
  case bounded => exact h.bounded
  case known => exact fun y hy => (h.known y hy).trans_le hnext
  case distinct => exact h.distinct
  case counted =>
    intro i
    rcases hrest with ⟨hgeneration, hrefs⟩ | ⟨hgeneration, -, hrefs⟩
    · rw [held_host hgeneration]
      exact (hrefs i).trans (h.counted i)
    · rw [held_renewed h.past hgeneration]
      exact hrefs i
  case past =>
    intro y hy
    have hpast := h.past y hy
    show y.generation ≤ (call.after s.fs).generation
    rcases hrest with ⟨hgeneration, -⟩ | ⟨hgeneration, -⟩ <;> omega
  case unlocked =>
    intro y hy hstale l hl
    have hstale' : y.generation ≠ (call.after s.fs).generation := hstale
    rcases hrest with ⟨hgeneration, -⟩ | ⟨-, hlocks, -⟩
    · rw [hgeneration] at hstale'
      rcases htags l hl with htag | ⟨l', hl', heq⟩
      · cases htag
      · rw [← heq]
        exact h.unlocked y hy hstale' l' hl'
    · have hl' : l ∈ (call.after s.fs).locks := hl
      rw [hlocks] at hl'
      cases hl'

/-- A new session has no fid. -/
theorem held_extended (i : InodeId) : s.extended.held i = s.held i := by
  have hnew : charged (s.extended.activate (created s.fs)) i = 0 :=
    (charged_of_current rfl i).trans (held_empty (created s.fs) i)
  show ((s.sessions ++ [created s.fs]).map _).sum = s.held i
  rw [List.map_append, List.sum_append, List.map_singleton, List.sum_singleton, hnew, Nat.add_zero]
  rfl

theorem past_extended (hpast : ∀ x ∈ s.sessions, x.generation ≤ s.fs.generation) :
    ∀ y ∈ s.extended.sessions, y.generation ≤ s.extended.fs.generation := by
  intro y hy
  rcases List.mem_append.mp hy with hy | hy
  · exact hpast y hy
  · rw [List.mem_singleton.mp hy]
    exact Nat.le_refl _

theorem Covering.connect (h : Covering s) : Covering s.connect := by
  have hstable := h.toStable.connect
  rcases connect_eq s with heq | heq
  · rw [heq]
    exact h
  rw [heq] at hstable ⊢
  exact ⟨hstable, fun i => (held_extended i).trans_le (h.covers i), past_extended h.past⟩

theorem Sound.connect (h : Sound s) : Sound s.connect := by
  have hstable := h.toStable.connect
  rcases connect_eq s with heq | heq
  · rw [heq]
    exact h
  rw [heq] at hstable ⊢
  constructor
  case toStable => exact hstable
  case bounded =>
    intro y hy
    rcases List.mem_append.mp hy with hy | hy
    · exact h.bounded y hy
    · rw [List.mem_singleton.mp hy]
      exact FidsBounded.empty (created s.fs)
  case counted =>
    intro i
    rw [held_extended]
    exact h.counted i
  case known =>
    intro y hy
    rcases List.mem_append.mp hy with hy | hy
    · exact (h.known y hy).trans (Nat.lt_succ_self _)
    · rw [List.mem_singleton.mp hy]
      exact Nat.lt_succ_self _
  case distinct =>
    show ((s.sessions ++ [created s.fs]).map (·.session)).Nodup
    rw [List.map_append, List.map_singleton]
    refine List.nodup_append.mpr ⟨h.distinct, List.nodup_singleton _, ?_⟩
    intro n hn m hm
    obtain ⟨y, hy, rfl⟩ := List.mem_map.mp hn
    rw [List.mem_singleton.mp hm]
    exact (h.known y hy).ne
  case past => exact past_extended h.past
  case unlocked =>
    intro y hy hstale
    rcases List.mem_append.mp hy with hy | hy
    · exact h.unlocked y hy hstale
    · rw [List.mem_singleton.mp hy] at hstale
      exact absurd rfl hstale

theorem Covering.step (h : Covering s) {action : Action} (hfair : s.Fair action) :
    Covering (s.step action) := by
  refine session_cases h.toStable h (fun hx hacted => h.acted hx hacted) ?_ h.connect
  rintro call rfl
  exact h.host hfair

theorem Sound.step (h : Sound s) {action : Action} (hout : action.Outside) :
    Sound (s.step action) := by
  refine session_cases h.toStable h (fun hx hacted => h.acted hx hacted) ?_ h.connect
  rintro call rfl
  exact h.host hout

theorem Sound.run (h : Sound s) {actions : List Action} (hout : ∀ a ∈ actions, a.Outside) :
    Sound (s.run actions) := by
  induction actions generalizing s with
  | nil => exact h
  | cons action actions ih =>
    exact ih (h.step (hout action List.mem_cons_self)) fun a ha => hout a (List.mem_cons_of_mem _ ha)

theorem new_refsOf (identity : Nat) (limits : Limits) (now : UInt64) (i : InodeId) :
    (Filesystem.new identity limits now).refsOf i = 0 := by
  cases hn : (Filesystem.new identity limits now).inodes[i]? with
  | none => exact Filesystem.refsOf_of_none hn
  | some n =>
    rw [Filesystem.refsOf_of_get hn]
    have hget := (BTreeMap.get_insert (∅ : BTreeMap InodeId Inode) 1 i
      (Filesystem.rootInode 1 now)).symm.trans hn
    split at hget
    next =>
      cases hget
      rfl
    next => simp at hget

theorem start_sound (identity : Nat) (limits : Limits) (now : UInt64) :
    Sound (start identity limits now) where
  toStable := start_stable identity limits now
  bounded := fun y hy => by cases hy
  counted := new_refsOf identity limits now
  known := fun y hy => by cases hy
  distinct := List.nodup_nil
  past := fun y hy => by cases hy
  unlocked := fun y hy => by cases hy

/-- The states of a namespace and its sessions, of any number and in any order of actions,
while the host releases only fids of its own. -/
inductive Reach (identity : Nat) (limits : Limits) (now : UInt64) : Shared → Prop
  | start : Reach identity limits now (start identity limits now)
  | step {s : Shared} (reach : Reach identity limits now s) {action : Action}
      (fair : s.Fair action) : Reach identity limits now (s.step action)

theorem Reach.covering {identity : Nat} {limits : Limits} {now : UInt64}
    (h : Reach identity limits now s) : Covering s := by
  induction h with
  | start => exact (start_sound identity limits now).covering
  | step _ hfair ih => exact ih.step hfair

end Shared

end Riscbox

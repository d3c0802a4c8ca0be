import Riscbox.Collections.Bits
import Riscbox.Machine.Platform

/-!
# The gateways of the interrupt controller

Each source of the controller has a line and a gateway.  The gateway forwards the line to
the two contexts and then waits for the context that claimed it.
-/

namespace Riscbox
namespace Platform

/-! ## One source -/

inductive Gateway
  | idle
  | pending
  | claimed (context : Fin 2)
  deriving DecidableEq, Repr

/-- A source.  The gateway of a line that is asserted is not idle. -/
structure Source where
  line : Bool
  gateway : Gateway
  forwarded : line = true → gateway ≠ .idle

namespace Source

def init : Source := ⟨false, .idle, fun h => Bool.noConfusion h⟩

/-- What the gateway holds when the line changes. -/
def forward (gateway : Gateway) (asserted : Bool) : Gateway :=
  if asserted = true ∧ gateway = .idle then .pending else gateway

theorem forward_idle (asserted : Bool) :
    forward .idle asserted = if asserted then .pending else .idle := by
  cases asserted <;> rfl

theorem forward_busy {gateway : Gateway} (h : gateway ≠ .idle) (asserted : Bool) :
    forward gateway asserted = gateway := if_neg fun hboth => h hboth.2

theorem forward_eq_claimed {gateway : Gateway} {asserted : Bool} {context : Fin 2} :
    forward gateway asserted = .claimed context ↔ gateway = .claimed context := by
  cases gateway with
  | idle => cases asserted <;> simp [forward]
  | pending | claimed context' => rw [forward_busy Gateway.noConfusion]

theorem forward_false (gateway : Gateway) : forward gateway false = gateway :=
  if_neg fun hboth => Bool.false_ne_true hboth.1

theorem forward_eq_pending {gateway : Gateway} :
    forward gateway true = .pending ↔ ∀ context, gateway ≠ .claimed context := by
  cases gateway with
  | idle => simp [forward]
  | pending => simp [forward]
  | claimed context => simp [forward]

theorem forward_ne_idle {gateway : Gateway} {asserted : Bool} (h : asserted = true) :
    forward gateway asserted ≠ .idle := by
  unfold forward
  split
  · exact Gateway.noConfusion
  · next hboth => exact fun hidle => hboth ⟨h, hidle⟩

def drive (s : Source) (asserted : Bool) : Source :=
  ⟨asserted, forward s.gateway asserted, forward_ne_idle⟩

def claim (s : Source) (context : Fin 2) : Source :=
  ⟨s.line, .claimed context, fun _ => Gateway.noConfusion⟩

/-- The gateway takes up its line again. -/
def complete (s : Source) (context : Fin 2) : Source :=
  if s.gateway = .claimed context then ⟨s.line, forward .idle s.line, forward_ne_idle⟩ else s

end Source

/-! ## Accesses -/

/-- What reaches the controller: a line, or an access of the guest. -/
inductive PlicAccess
  | setIrq (irq : Nat) (asserted : Bool)
  | read (offset : Nat)
  | write (offset : Nat) (value : BitVec 32)

/-- The level of a line after the access. -/
def PlicAccess.levelAfter (irq : Nat) (level : Bool) : PlicAccess → Bool
  | .setIrq i asserted => if i = irq then asserted else level
  | _ => level

namespace Plic

def perform (p : Plic) : PlicAccess → Plic
  | .setIrq irq asserted => p.setIrq irq asserted
  | .read offset => (p.read offset).2
  | .write offset value => p.write offset value

def run (accesses : List PlicAccess) : Plic := accesses.foldl perform init

/-- The register that claims and completes for the context. -/
def claimOffset (context : Fin 2) : Nat := 0x200004 + 0x1000 * context.val

/-- The context whose claim register stands at the offset. -/
def contextAt (offset : Nat) : Option (Fin 2) :=
  if offset = claimOffset machineContext then some machineContext
  else if offset = claimOffset supervisorContext then some supervisorContext
  else none

theorem contextAt_eq_some {offset : Nat} {context : Fin 2} :
    contextAt offset = some context ↔ offset = claimOffset context := by
  have htwo : ∀ c : Fin 2, c = machineContext ∨ c = supervisorContext := by decide
  have hne : claimOffset supervisorContext ≠ claimOffset machineContext := by decide
  unfold contextAt
  constructor
  · intro h
    split at h
    · next hoffset => rwa [← Option.some.inj h]
    · split at h
      · next hoffset => rwa [← Option.some.inj h]
      · cases h
  · rintro rfl
    rcases htwo context with rfl | rfl
    · exact if_pos rfl
    · rw [if_neg hne, if_pos rfl]

/-- The level that the accesses leave on a line. -/
def asserted (accesses : List PlicAccess) (irq : Nat) : Bool :=
  accesses.foldl (fun level access => access.levelAfter irq level) false

/-- The access completes the source for the context. -/
def Completes (context : Fin 2) (irq : Nat) : PlicAccess → Prop
  | .write offset value => offset = claimOffset context ∧ value.toNat = irq
  | _ => False

/-! ## What an access does -/

theorem read_claimOffset (p : Plic) (context : Fin 2) :
    p.read (claimOffset context) =
      (BitVec.ofNat 32 (p.claim context).1, (p.claim context).2) := by
  have htwo : ∀ c : Fin 2, c = 0 ∨ c = 1 := by decide
  rcases htwo context with rfl | rfl
  · rfl
  · rfl

theorem write_claimOffset (p : Plic) (context : Fin 2) (value : BitVec 32) :
    p.write (claimOffset context) value = p.complete context value.toNat := by
  have htwo : ∀ c : Fin 2, c = 0 ∨ c = 1 := by decide
  rcases htwo context with rfl | rfl
  · rfl
  · rfl

theorem ne_of_contextAt {offset : Nat} (h : contextAt offset = none) :
    offset ≠ 0x200004 ∧ offset ≠ 0x201004 := by
  constructor
  · rintro rfl
    cases h
  · rintro rfl
    cases h

/-- A read elsewhere changes nothing. -/
theorem read_elsewhere (p : Plic) {offset : Nat} (h : contextAt offset = none) :
    (p.read offset).2 = p := by
  obtain ⟨hmachine, hsupervisor⟩ := ne_of_contextAt h
  unfold read
  split
  · rfl
  · split <;> first | rfl | contradiction

/-- A write elsewhere leaves the gateways alone. -/
theorem write_elsewhere (p : Plic) {offset : Nat} (h : contextAt offset = none)
    (value : BitVec 32) :
    (p.write offset value).level = p.level ∧ (p.write offset value).pending = p.pending ∧
      (p.write offset value).claimed = p.claimed := by
  obtain ⟨hmachine, hsupervisor⟩ := ne_of_contextAt h
  unfold write
  split
  · exact ⟨rfl, rfl, rfl⟩
  · split <;> first | exact ⟨rfl, rfl, rfl⟩ | contradiction

theorem irqMask_self {irq : Nat} (h : irq < 32) : (irqMask irq).getLsbD irq = true := by
  unfold irqMask
  rw [getLsbD_bit h]
  exact decide_eq_true rfl

theorem irqMask_ne {irq i : Nat} (hirq : irq < 32) (hne : irq ≠ i) :
    (irqMask irq).getLsbD i = false := by
  unfold irqMask
  rw [getLsbD_bit hirq]
  exact decide_eq_false hne.symm

theorem and_irqMask_eq_zero {v : BitVec 32} {irq : Nat} (h : irq < 32) :
    v &&& irqMask irq = 0 ↔ v.getLsbD irq = false := by
  have hbit := and_bit_ne_zero (m := v) h
  rw [← Bool.not_eq_true, ← hbit, not_not]
  rfl

/-! ## The gateways refine -/

/-- The words of the controller show the source. -/
structure Shows (p : Plic) (i : Nat) (s : Source) : Prop where
  level : p.level.getLsbD i = s.line
  pending : p.pending.getLsbD i = decide (s.gateway = .pending)
  claimed : ∀ context, (p.claimed context).getLsbD i = decide (s.gateway = .claimed context)

theorem Shows.of_eq {p p' : Plic} {i : Nat} {s : Source} (h : p.Shows i s)
    (hlevel : p'.level.getLsbD i = p.level.getLsbD i)
    (hpending : p'.pending.getLsbD i = p.pending.getLsbD i)
    (hclaimed : ∀ context, (p'.claimed context).getLsbD i = (p.claimed context).getLsbD i) :
    p'.Shows i s where
  level := hlevel.trans h.level
  pending := hpending.trans h.pending
  claimed := fun context => (hclaimed context).trans (h.claimed context)

/-- What the access does to the source `i`.  The source 0 does not exist. -/
def follow (p : Plic) (i : Nat) (s : Source) : PlicAccess → Source
  | .setIrq irq asserted => if irq = i ∧ i ≠ 0 then s.drive asserted else s
  | .read offset =>
    match contextAt offset with
    | some context => if p.bestIrq context true = i ∧ i ≠ 0 then s.claim context else s
    | none => s
  | .write offset value =>
    match contextAt offset with
    | some context => if value.toNat = i ∧ i ≠ 0 then s.complete context else s
    | none => s

section Shows

variable {p : Plic} {i : Nat} {s : Source}

theorem setIrq_shows (h : p.Shows i s) (hlt : i < 32) (irq : Nat) (asserted : Bool) :
    (p.setIrq irq asserted).Shows i (if irq = i ∧ i ≠ 0 then s.drive asserted else s) := by
  unfold setIrq
  by_cases hsource : irq < 1 ∨ 32 ≤ irq
  · rw [if_pos hsource, if_neg (by omega)]
    exact h
  have hirq : irq < 32 := by omega
  rw [if_neg hsource]
  dsimp only
  by_cases hne : irq = i
  · subst hne
    have hself : irq = irq ∧ irq ≠ 0 := ⟨rfl, by omega⟩
    rw [if_pos hself]
    cases asserted with
    | false =>
      rw [if_neg Bool.false_ne_true]
      refine ⟨?_, ?_, ?_⟩
      · show (p.level &&& ~~~irqMask irq).getLsbD irq = false
        rw [BitVec.getLsbD_and, BitVec.getLsbD_not, irqMask_self hirq, Bool.not_true,
          Bool.and_false, Bool.and_false]
      · show p.pending.getLsbD irq = decide (Source.forward s.gateway false = .pending)
        rw [Source.forward_false]
        exact h.pending
      · intro context
        show (p.claimed context).getLsbD irq =
          decide (Source.forward s.gateway false = .claimed context)
        rw [Source.forward_false]
        exact h.claimed context
    | true =>
      rw [if_pos rfl]
      have hunclaimed : (p.claimed 0 &&& irqMask irq = 0 ∧ p.claimed 1 &&& irqMask irq = 0) ↔
          Source.forward s.gateway true = .pending := by
        rw [and_irqMask_eq_zero hirq, and_irqMask_eq_zero hirq, h.claimed, h.claimed,
          decide_eq_false_iff_not, decide_eq_false_iff_not, Source.forward_eq_pending,
          Fin.forall_fin_two]
      refine ⟨?_, ?_, ?_⟩
      · show (p.level ||| irqMask irq).getLsbD irq = true
        rw [BitVec.getLsbD_or, irqMask_self hirq, Bool.or_true]
      · show BitVec.getLsbD (if p.claimed 0 &&& irqMask irq = 0 ∧ p.claimed 1 &&& irqMask irq = 0
          then p.pending ||| irqMask irq else p.pending) irq =
            decide (Source.forward s.gateway true = .pending)
        by_cases hfree : Source.forward s.gateway true = .pending
        · rw [if_pos (hunclaimed.mpr hfree), BitVec.getLsbD_or, irqMask_self hirq, Bool.or_true,
            decide_eq_true hfree]
        · have hclaimed : s.gateway ≠ .pending := fun hpending => hfree (by rw [hpending]; rfl)
          rw [if_neg (fun hmask => hfree (hunclaimed.mp hmask)), h.pending, decide_eq_false hfree,
            decide_eq_false hclaimed]
      · intro context
        show (p.claimed context).getLsbD irq =
          decide (Source.forward s.gateway true = .claimed context)
        rw [h.claimed]
        exact decide_eq_decide.mpr Source.forward_eq_claimed.symm
  · have hother : ¬(irq = i ∧ i ≠ 0) := fun hboth => hne hboth.1
    rw [if_neg hother]
    have hmask := irqMask_ne hirq hne
    cases asserted with
    | false =>
      rw [if_neg Bool.false_ne_true]
      refine h.of_eq ?_ rfl fun _ => rfl
      show (p.level &&& ~~~irqMask irq).getLsbD i = _
      rw [BitVec.getLsbD_and, BitVec.getLsbD_not, hmask, decide_eq_true hlt, Bool.not_false,
        Bool.and_true, Bool.and_true]
    | true =>
      rw [if_pos rfl]
      refine h.of_eq ?_ ?_ fun _ => rfl
      · show (p.level ||| irqMask irq).getLsbD i = _
        rw [BitVec.getLsbD_or, hmask, Bool.or_false]
      · dsimp only
        split
        · rw [BitVec.getLsbD_or, hmask, Bool.or_false]
        · rfl

theorem claim_shows (h : p.Shows i s) (hlt : i < 32) (context : Fin 2) :
    (p.claim context).2.Shows i
      (if p.bestIrq context true = i ∧ i ≠ 0 then s.claim context else s) := by
  have hbest : p.bestIrq context true < 32 := p.bestIrq_lt context
  unfold claim
  by_cases hzero : p.bestIrq context true = 0
  · dsimp only
    rw [if_pos hzero, if_neg (by omega)]
    exact h
  dsimp only
  rw [if_neg hzero]
  by_cases hi : p.bestIrq context true = i
  · rw [if_pos ⟨hi, by omega⟩, hi]
    refine ⟨h.level, ?_, fun c => ?_⟩
    · show (p.pending &&& ~~~irqMask i).getLsbD i = false
      rw [BitVec.getLsbD_and, BitVec.getLsbD_not, irqMask_self hlt, Bool.not_true, Bool.and_false,
        Bool.and_false]
    · show (Function.update p.claimed context (p.claimed context ||| irqMask i) c).getLsbD i =
        decide (Gateway.claimed context = .claimed c)
      by_cases hc : c = context
      · subst hc
        rw [Function.update_self, BitVec.getLsbD_or, irqMask_self hlt, Bool.or_true,
          decide_eq_true rfl]
      · have hpending : s.gateway = .pending := by
          rcases p.bestIrq_cases context with ⟨hnone, -⟩ | ⟨-, hready, -⟩
          · exact absurd hnone hzero
          · rw [hi, Ready, h.pending] at hready
            exact of_decide_eq_true hready.1
        rw [Function.update_of_ne hc, h.claimed, hpending, decide_eq_false Gateway.noConfusion,
          decide_eq_false fun heq => hc (Gateway.claimed.inj heq).symm]
  · rw [if_neg (fun hboth => hi hboth.1)]
    have hmask := irqMask_ne hbest hi
    refine h.of_eq rfl ?_ fun c => ?_
    · show (p.pending &&& ~~~irqMask (p.bestIrq context true)).getLsbD i = _
      rw [BitVec.getLsbD_and, BitVec.getLsbD_not, hmask, decide_eq_true hlt, Bool.not_false,
        Bool.and_true, Bool.and_true]
    · show (Function.update p.claimed context
        (p.claimed context ||| irqMask (p.bestIrq context true)) c).getLsbD i = _
      by_cases hc : c = context
      · subst hc
        rw [Function.update_self, BitVec.getLsbD_or, hmask, Bool.or_false]
      · rw [Function.update_of_ne hc]

theorem complete_shows (h : p.Shows i s) (hlt : i < 32) (context : Fin 2) (irq : Nat) :
    (p.complete context irq).Shows i
      (if irq = i ∧ i ≠ 0 then s.complete context else s) := by
  unfold complete
  by_cases hsource : irq < 1 ∨ 32 ≤ irq
  · rw [if_pos hsource, if_neg (by omega)]
    exact h
  have hirq : irq < 32 := by omega
  rw [if_neg hsource]
  dsimp only
  by_cases hne : irq = i
  · subst hne
    have hself : irq = irq ∧ irq ≠ 0 := ⟨rfl, by omega⟩
    rw [if_pos hself]
    unfold Source.complete
    by_cases hclaimed : s.gateway = .claimed context
    · have hmask : p.claimed context &&& irqMask irq ≠ 0 := by
        rw [ne_eq, and_irqMask_eq_zero hirq, h.claimed, hclaimed, decide_eq_true rfl]
        exact Bool.true_eq_false.mp
      have hlevel : p.level &&& irqMask irq ≠ 0 ↔ s.line = true := by
        rw [ne_eq, and_irqMask_eq_zero hirq, h.level, Bool.not_eq_false]
      rw [if_pos hclaimed, if_neg hmask]
      refine ⟨h.level, ?_, fun c => ?_⟩
      · show BitVec.getLsbD (if p.level &&& irqMask irq ≠ 0 then p.pending ||| irqMask irq
          else p.pending) irq = decide (Source.forward .idle s.line = .pending)
        by_cases hline : s.line = true
        · rw [if_pos (hlevel.mpr hline), BitVec.getLsbD_or, irqMask_self hirq, Bool.or_true, hline]
          rfl
        · have hlow : s.line = false := Bool.not_eq_true _ ▸ hline
          rw [if_neg (fun hmask => hline (hlevel.mp hmask)), h.pending, hclaimed, hlow]
          rfl
      · show (Function.update p.claimed context (p.claimed context &&& ~~~irqMask irq) c).getLsbD
          irq = decide (Source.forward .idle s.line = .claimed c)
        have hidle : Source.forward .idle s.line ≠ .claimed c :=
          fun heq => Gateway.noConfusion (Source.forward_eq_claimed.mp heq)
        rw [decide_eq_false hidle]
        by_cases hc : c = context
        · subst hc
          rw [Function.update_self, BitVec.getLsbD_and, BitVec.getLsbD_not, irqMask_self hirq,
            Bool.not_true, Bool.and_false, Bool.and_false]
        · rw [Function.update_of_ne hc, h.claimed, hclaimed,
            decide_eq_false fun heq => hc (Gateway.claimed.inj heq).symm]
    · have hmask : p.claimed context &&& irqMask irq = 0 := by
        rw [and_irqMask_eq_zero hirq, h.claimed, decide_eq_false hclaimed]
      rw [if_neg hclaimed, if_pos hmask]
      exact h
  · have hother : ¬(irq = i ∧ i ≠ 0) := fun hboth => hne hboth.1
    rw [if_neg hother]
    have hmask := irqMask_ne hirq hne
    split
    · exact h
    · refine h.of_eq rfl ?_ fun c => ?_
      · dsimp only
        split
        · rw [BitVec.getLsbD_or, hmask, Bool.or_false]
        · rfl
      · show (Function.update p.claimed context (p.claimed context &&& ~~~irqMask irq) c).getLsbD
          i = _
        by_cases hc : c = context
        · subst hc
          rw [Function.update_self, BitVec.getLsbD_and, BitVec.getLsbD_not, hmask,
            decide_eq_true hlt, Bool.not_false, Bool.and_true, Bool.and_true]
        · rw [Function.update_of_ne hc]

/-- One access. -/
theorem perform_shows (h : p.Shows i s) (hlt : i < 32) (access : PlicAccess) :
    (p.perform access).Shows i (p.follow i s access) := by
  cases access with
  | setIrq irq asserted => exact setIrq_shows h hlt irq asserted
  | read offset =>
    unfold perform follow
    dsimp only
    cases hoffset : contextAt offset with
    | none =>
      rw [read_elsewhere p hoffset]
      exact h
    | some context =>
      rw [contextAt_eq_some.mp hoffset, read_claimOffset]
      exact claim_shows h hlt context
  | write offset value =>
    unfold perform follow
    dsimp only
    cases hoffset : contextAt offset with
    | none =>
      obtain ⟨hlevel, hpending, hclaimed⟩ := write_elsewhere p hoffset value
      refine h.of_eq ?_ ?_ fun context => ?_
      · rw [hlevel]
      · rw [hpending]
      · rw [hclaimed]
    | some context =>
      rw [contextAt_eq_some.mp hoffset, write_claimOffset]
      exact complete_shows h hlt context value.toNat

end Shows

/-! ## Runs -/

theorem run_concat (accesses : List PlicAccess) (access : PlicAccess) :
    run (accesses ++ [access]) = (run accesses).perform access := by
  unfold run
  rw [List.foldl_append]
  rfl

theorem asserted_concat (accesses : List PlicAccess) (access : PlicAccess) (irq : Nat) :
    asserted (accesses ++ [access]) irq = access.levelAfter irq (asserted accesses irq) := by
  unfold asserted
  rw [List.foldl_append]
  rfl

/-- The controller and its source `i`, side by side. -/
def track (i : Nat) (state : Plic × Source) (access : PlicAccess) : Plic × Source :=
  (state.1.perform access, state.1.follow i state.2 access)

/-- The source `i` after the accesses. -/
def sourceOf (i : Nat) (accesses : List PlicAccess) : Source :=
  (accesses.foldl (track i) (init, Source.init)).2

theorem track_fst (i : Nat) (accesses : List PlicAccess) :
    (accesses.foldl (track i) (init, Source.init)).1 = run accesses := by
  induction accesses using List.reverseRecOn with
  | nil => rfl
  | append_singleton accesses access ih =>
    rw [run_concat, List.foldl_append, ← ih]
    rfl

theorem sourceOf_concat (i : Nat) (accesses : List PlicAccess) (access : PlicAccess) :
    sourceOf i (accesses ++ [access]) =
      (run accesses).follow i (sourceOf i accesses) access := by
  unfold sourceOf
  rw [List.foldl_append, ← track_fst i accesses]
  rfl

/-- After any accesses the words show every source. -/
theorem run_shows {i : Nat} (hlt : i < 32) (accesses : List PlicAccess) :
    (run accesses).Shows i (sourceOf i accesses) := by
  induction accesses using List.reverseRecOn with
  | nil => exact ⟨BitVec.getLsbD_zero, BitVec.getLsbD_zero, fun _ => BitVec.getLsbD_zero⟩
  | append_singleton accesses access ih =>
    rw [run_concat, sourceOf_concat]
    exact perform_shows ih hlt access

theorem follow_zero (p : Plic) (s : Source) (access : PlicAccess) : p.follow 0 s access = s := by
  have hnever : ∀ {irq : Nat}, ¬(irq = 0 ∧ 0 ≠ 0) := fun hboth => hboth.2 rfl
  cases access with
  | setIrq irq asserted => exact if_neg hnever
  | read offset =>
    unfold follow
    dsimp only
    split
    · exact if_neg hnever
    · rfl
  | write offset value =>
    unfold follow
    dsimp only
    split
    · exact if_neg hnever
    · rfl

theorem sourceOf_zero (accesses : List PlicAccess) : sourceOf 0 accesses = Source.init := by
  induction accesses using List.reverseRecOn with
  | nil => rfl
  | append_singleton accesses access ih => rw [sourceOf_concat, follow_zero, ih]

theorem follow_line {i : Nat} (hi : i ≠ 0) (p : Plic) (s : Source) (access : PlicAccess) :
    (p.follow i s access).line = access.levelAfter i s.line := by
  cases access with
  | setIrq irq asserted =>
    show (if irq = i ∧ i ≠ 0 then s.drive asserted else s).line =
      if irq = i then asserted else s.line
    by_cases hirq : irq = i
    · rw [if_pos ⟨hirq, hi⟩, if_pos hirq]
      rfl
    · rw [if_neg fun hboth => hirq hboth.1, if_neg hirq]
  | read offset =>
    unfold follow
    dsimp only
    split
    · split <;> rfl
    · rfl
  | write offset value =>
    unfold follow
    dsimp only
    split
    · split
      · unfold Source.complete
        split <;> rfl
      · rfl
    · rfl

theorem sourceOf_line {i : Nat} (hi : i ≠ 0) (accesses : List PlicAccess) :
    (sourceOf i accesses).line = asserted accesses i := by
  induction accesses using List.reverseRecOn with
  | nil => rfl
  | append_singleton accesses access ih =>
    rw [sourceOf_concat, follow_line hi, asserted_concat, ih]

/-- A claimed source stays claimed until its context completes it. -/
theorem follow_claimed {p : Plic} {i : Nat} {s : Source} {context : Fin 2} (h : p.Shows i s)
    (hclaimed : s.gateway = .claimed context) {access : PlicAccess}
    (hkeep : ¬Completes context i access) :
    (p.follow i s access).gateway = .claimed context := by
  cases access with
  | setIrq irq asserted =>
    unfold follow
    dsimp only
    split
    · exact Source.forward_eq_claimed.mpr hclaimed
    · exact hclaimed
  | read offset =>
    unfold follow
    dsimp only
    split
    · next other _ =>
      split
      · next hbest =>
        -- a source that the loop picks is pending
        exfalso
        rcases p.bestIrq_cases other with ⟨hnone, -⟩ | ⟨-, hready, -⟩
        · exact hbest.2 (hbest.1 ▸ hnone)
        · rw [hbest.1] at hready
          have hpending := h.pending
          rw [hready.1, hclaimed] at hpending
          exact Bool.noConfusion hpending
      · exact hclaimed
    · exact hclaimed
  | write offset value =>
    unfold follow
    dsimp only
    split
    · next other hoffset =>
      split
      · next hvalue =>
        have hne : context ≠ other := by
          rintro rfl
          exact hkeep ⟨contextAt_eq_some.mp hoffset, hvalue.1⟩
        unfold Source.complete
        rw [if_neg]
        · exact hclaimed
        · intro hother
          rw [hclaimed] at hother
          exact hne (Gateway.claimed.inj hother)
      · exact hclaimed
    · exact hclaimed

/-! ## The discipline -/

/-- What holds of the words at any time.  The source 0 does not exist. -/
structure Disciplined (p : Plic) : Prop where
  apart : p.pending &&& (p.claimed machineContext ||| p.claimed supervisorContext) = 0
  exclusive : p.claimed machineContext &&& p.claimed supervisorContext = 0
  forwarded : p.level &&&
    ~~~(p.pending ||| p.claimed machineContext ||| p.claimed supervisorContext) = 0
  unpending : p.pending.getLsbD 0 = false
  unclaimed : ∀ context, (p.claimed context).getLsbD 0 = false
  disabled : ∀ context, (p.enable context).getLsbD 0 = false

/-- What a claim of the context gives, and what it leaves. -/
structure Claims (p : Plic) (context : Fin 2) (irq : Nat) (p' : Plic) : Prop where
  none : irq = 0 → (∀ i ∈ sources, ¬p.Ready context i) ∧ p' = p
  best : irq ≠ 0 → p.Selects context sources irq
  taken : irq ≠ 0 → p' = { p with
    pending := p.pending &&& ~~~irqMask irq
    claimed := Function.update p.claimed context (p.claimed context ||| irqMask irq) }

/-- The gateway of the source `irq`, which the context claimed after the accesses. -/
structure Waits (accesses : List PlicAccess) (context : Fin 2) (irq : Nat) : Prop where
  held : ∀ later, (∀ access ∈ later, ¬Completes context irq access) →
    ((run (accesses ++ later)).claimed context).getLsbD irq = true ∧
      (run (accesses ++ later)).pending.getLsbD irq = false
  completed : ∀ access, Completes context irq access →
    (run (accesses ++ [access])).pending.getLsbD irq = asserted accesses irq

theorem Shows.apart {p : Plic} {i : Nat} {s : Source} (h : p.Shows i s)
    (hpending : p.pending.getLsbD i = true) (context : Fin 2) :
    (p.claimed context).getLsbD i = false := by
  rw [h.pending] at hpending
  rw [h.claimed, of_decide_eq_true hpending]
  rfl

theorem Shows.exclusive {p : Plic} {i : Nat} {s : Source} (h : p.Shows i s)
    {context other : Fin 2} (hne : context ≠ other)
    (hclaimed : (p.claimed context).getLsbD i = true) : (p.claimed other).getLsbD i = false := by
  rw [h.claimed] at hclaimed
  rw [h.claimed, of_decide_eq_true hclaimed]
  exact decide_eq_false fun heq => hne (Gateway.claimed.inj heq)

theorem Shows.forwarded {p : Plic} {i : Nat} {s : Source} (h : p.Shows i s)
    (hlevel : p.level.getLsbD i = true) :
    p.pending.getLsbD i = true ∨ ∃ context, (p.claimed context).getLsbD i = true := by
  rw [h.level] at hlevel
  have hbusy := s.forwarded hlevel
  cases hgateway : s.gateway with
  | idle => exact absurd hgateway hbusy
  | pending =>
    left
    rw [h.pending, hgateway]
    rfl
  | claimed context =>
    right
    exact ⟨context, by rw [h.claimed, hgateway, decide_eq_true rfl]⟩

/-- The source 0 stays disabled. -/
theorem perform_enable {p : Plic} (h : ∀ context, (p.enable context).getLsbD 0 = false)
    (access : PlicAccess) (context : Fin 2) :
    ((p.perform access).enable context).getLsbD 0 = false := by
  cases access with
  | setIrq irq asserted =>
    unfold perform setIrq
    dsimp only
    split
    · exact h context
    · split <;> exact h context
  | read offset =>
    have hclaim : ∀ other, (p.claim other).2.enable = p.enable := by
      intro other
      unfold claim
      dsimp only
      split <;> rfl
    show ((p.read offset).2.enable context).getLsbD 0 = false
    cases hoffset : contextAt offset with
    | none =>
      rw [read_elsewhere p hoffset]
      exact h context
    | some other =>
      rw [contextAt_eq_some.mp hoffset, read_claimOffset, hclaim]
      exact h context
  | write offset value =>
    have hcomplete : ∀ other irq, (p.complete other irq).enable = p.enable := by
      intro other irq
      unfold complete
      dsimp only
      split
      · rfl
      · split <;> rfl
    have hmasked : ∀ other, (Function.update p.enable other (value &&& ~~~1) context).getLsbD 0 =
        false := by
      intro other
      by_cases hother : context = other
      · subst hother
        rw [Function.update_self, BitVec.getLsbD_and]
        exact Bool.and_false _
      · rw [Function.update_of_ne hother]
        exact h context
    unfold perform write
    dsimp only
    split
    · exact h context
    · split
      · exact hmasked 0
      · exact hmasked 1
      · exact h context
      · rw [hcomplete]
        exact h context
      · exact h context
      · rw [hcomplete]
        exact h context
      · exact h context

theorem run_enable (accesses : List PlicAccess) (context : Fin 2) :
    ((run accesses).enable context).getLsbD 0 = false := by
  induction accesses using List.reverseRecOn generalizing context with
  | nil => exact BitVec.getLsbD_zero
  | append_singleton accesses access ih =>
    rw [run_concat]
    exact perform_enable ih access context

theorem run_disciplined (accesses : List PlicAccess) : (run accesses).Disciplined := by
  have hzero := run_shows (show 0 < 32 by decide) accesses
  rw [sourceOf_zero] at hzero
  refine ⟨?_, ?_, ?_, hzero.pending, hzero.claimed, run_enable accesses⟩
  · apply eq_zero_of_getLsbD
    intro i hi
    have h := run_shows hi accesses
    rw [BitVec.getLsbD_and, BitVec.getLsbD_or]
    by_cases hpending : (run accesses).pending.getLsbD i = true
    · rw [h.apart hpending, h.apart hpending]
      exact Bool.and_false _
    · rw [Bool.not_eq_true] at hpending
      rw [hpending, Bool.false_and]
  · apply eq_zero_of_getLsbD
    intro i hi
    have h := run_shows hi accesses
    rw [BitVec.getLsbD_and]
    by_cases hclaimed : ((run accesses).claimed machineContext).getLsbD i = true
    · rw [h.exclusive (show machineContext ≠ supervisorContext by decide) hclaimed, Bool.and_false]
    · rw [Bool.not_eq_true] at hclaimed
      rw [hclaimed, Bool.false_and]
  · apply eq_zero_of_getLsbD
    intro i hi
    have h := run_shows hi accesses
    rw [BitVec.getLsbD_and, BitVec.getLsbD_not, BitVec.getLsbD_or, BitVec.getLsbD_or]
    by_cases hlevel : (run accesses).level.getLsbD i = true
    · rcases h.forwarded hlevel with hpending | ⟨context, hclaimed⟩
      · rw [hpending]
        simp
      · have htwo : ∀ c : Fin 2, c = machineContext ∨ c = supervisorContext := by decide
        rcases htwo context with rfl | rfl
        · rw [hclaimed]
          simp
        · rw [hclaimed]
          simp
    · rw [Bool.not_eq_true] at hlevel
      rw [hlevel, Bool.false_and]

theorem claim_claims (p : Plic) (context : Fin 2) :
    Claims p context (p.claim context).1 (p.claim context).2 := by
  unfold claim
  dsimp only
  rcases p.bestIrq_cases context with ⟨hzero, hnone⟩ | hselects
  · rw [if_pos hzero]
    exact ⟨fun _ => ⟨hnone, rfl⟩, fun hne => absurd hzero hne, fun hne => absurd hzero hne⟩
  · have hbounds := mem_sources.mp hselects.1
    have hne : p.bestIrq context true ≠ 0 := by omega
    rw [if_neg hne]
    exact ⟨fun hzero => absurd hzero hne, fun _ => hselects, fun _ => rfl⟩

theorem claim_lt (p : Plic) (context : Fin 2) : (p.claim context).1 < 32 := by
  have hbest := p.bestIrq_lt context
  unfold claim
  dsimp only
  split <;> exact hbest

theorem run_claimed {i : Nat} (hlt : i < 32) {accesses : List PlicAccess} {context : Fin 2}
    (hclaimed : (sourceOf i accesses).gateway = .claimed context) (later : List PlicAccess)
    (hkeep : ∀ access ∈ later, ¬Completes context i access) :
    (sourceOf i (accesses ++ later)).gateway = .claimed context := by
  induction later using List.reverseRecOn with
  | nil =>
    rw [List.append_nil]
    exact hclaimed
  | append_singleton later access ih =>
    rw [← List.append_assoc, sourceOf_concat]
    have hbefore := ih fun a ha => hkeep a (List.mem_append_left _ ha)
    exact follow_claimed (run_shows hlt _) hbefore
      (hkeep access (List.mem_append_right _ (List.mem_singleton_self access)))

theorem follow_completed {p : Plic} {i : Nat} (hi : i ≠ 0) {s : Source} {context : Fin 2}
    (hclaimed : s.gateway = .claimed context) {access : PlicAccess}
    (hcompletes : Completes context i access) :
    (p.follow i s access).gateway = Source.forward .idle s.line := by
  cases access with
  | setIrq irq asserted | read offset => exact hcompletes.elim
  | write offset value =>
    obtain ⟨hoffset, hvalue⟩ := hcompletes
    unfold follow
    dsimp only
    rw [contextAt_eq_some.mpr hoffset]
    dsimp only
    rw [if_pos ⟨hvalue, hi⟩]
    unfold Source.complete
    rw [if_pos hclaimed]

theorem run_waits {accesses : List PlicAccess} {context : Fin 2} {irq : Nat}
    (h : ((run accesses).claimed context).getLsbD irq = true) :
    Waits accesses context irq := by
  have hlt := BitVec.lt_of_getLsbD h
  have hclaimed : (sourceOf irq accesses).gateway = .claimed context := by
    rw [(run_shows hlt accesses).claimed] at h
    exact of_decide_eq_true h
  have hne : irq ≠ 0 := by
    rintro rfl
    rw [sourceOf_zero] at hclaimed
    exact Gateway.noConfusion hclaimed
  constructor
  · intro later hkeep
    have hshows := run_shows hlt (accesses ++ later)
    have hlater := run_claimed hlt hclaimed later hkeep
    refine ⟨?_, ?_⟩
    · rw [hshows.claimed, hlater, decide_eq_true rfl]
    · rw [hshows.pending, hlater]
      rfl
  · intro access hcompletes
    rw [(run_shows hlt _).pending, sourceOf_concat, follow_completed hne hclaimed hcompletes,
      sourceOf_line hne, Source.forward_idle]
    cases asserted accesses irq <;> rfl

theorem cpuInterrupts_meip (p : Plic) :
    p.cpuInterrupts &&& mipMeip ≠ 0 ↔ p.bestIrq machineContext true ≠ 0 := by
  unfold cpuInterrupts
  dsimp only
  by_cases hmachine : p.bestIrq 0 true ≠ 0
  · rw [if_pos hmachine]
    refine ⟨fun _ => hmachine, fun _ => ?_⟩
    split <;> decide
  · rw [if_neg hmachine]
    refine ⟨fun hne => absurd ?_ hne, fun hne => absurd hne hmachine⟩
    split <;> decide

theorem cpuInterrupts_seip (p : Plic) :
    p.cpuInterrupts &&& mipSeip ≠ 0 ↔ p.bestIrq supervisorContext true ≠ 0 := by
  unfold cpuInterrupts
  dsimp only
  by_cases hsupervisor : p.bestIrq 1 true ≠ 0
  · rw [if_pos hsupervisor]
    refine ⟨fun _ => hsupervisor, fun _ => ?_⟩
    split <;> decide
  · rw [if_neg hsupervisor]
    refine ⟨fun hne => absurd ?_ hne, fun hne => absurd hne hsupervisor⟩
    split <;> decide

theorem claim_fst (p : Plic) (context : Fin 2) :
    (p.claim context).1 = p.bestIrq context true := by
  unfold claim
  dsimp only
  split <;> rfl

/-- What a read of the claim register returns. -/
theorem read_toNat (p : Plic) (context : Fin 2) :
    (p.read (claimOffset context)).1.toNat = (p.claim context).1 := by
  have hlt := p.claim_lt context
  rw [read_claimOffset, BitVec.toNat_ofNat, Nat.mod_eq_of_lt (by omega)]

theorem read_ne_zero (p : Plic) (context : Fin 2) :
    (p.read (claimOffset context)).1 ≠ 0 ↔ p.bestIrq context true ≠ 0 := by
  rw [← claim_fst, ← read_toNat]
  apply not_congr
  constructor
  · intro hzero
    rw [hzero]
    rfl
  · exact fun hzero => BitVec.eq_of_toNat_eq hzero

/-- The gateways after any lines and accesses: the words of the controller are disciplined,
a claim of either context takes the best source, a claimed source waits for its context, and
the lines to the hart are raised exactly when a claim would find a source. -/
theorem gateways_disciplined (accesses : List PlicAccess) :
    (run accesses).Disciplined ∧
      (∀ irq, 1 ≤ irq → irq < 32 →
        (run accesses).level.getLsbD irq = asserted accesses irq) ∧
      (∀ context, Claims (run accesses) context
        ((run accesses).read (claimOffset context)).1.toNat
        ((run accesses).read (claimOffset context)).2) ∧
      (∀ context irq, ((run accesses).claimed context).getLsbD irq = true →
        Waits accesses context irq) ∧
      ((run accesses).cpuInterrupts &&& mipMeip ≠ 0 ↔
        ((run accesses).read (claimOffset machineContext)).1 ≠ 0) ∧
      ((run accesses).cpuInterrupts &&& mipSeip ≠ 0 ↔
        ((run accesses).read (claimOffset supervisorContext)).1 ≠ 0) := by
  refine ⟨run_disciplined accesses, ?_, ?_, fun context irq => run_waits, ?_, ?_⟩
  · intro irq hone hlt
    rw [(run_shows hlt accesses).level, sourceOf_line (by omega)]
  · intro context
    rw [read_toNat, read_claimOffset]
    exact claim_claims (run accesses) context
  · rw [cpuInterrupts_meip, read_ne_zero]
  · rw [cpuInterrupts_seip, read_ne_zero]

end Plic

end Platform
end Riscbox

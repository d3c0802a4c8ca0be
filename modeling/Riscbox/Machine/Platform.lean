import Mathlib.Data.BitVec
import Mathlib.Data.List.Basic

/-!
# The interrupt controllers of the platform
-/

namespace Riscbox
namespace Platform

def mipMsip : BitVec 32 := 1 <<< 3
def mipMtip : BitVec 32 := 1 <<< 7
def mipSeip : BitVec 32 := 1 <<< 9
def mipMeip : BitVec 32 := 1 <<< 11

/-! ## The local interrupter -/

structure Aclint where
  msip : Bool
  timecmp : BitVec 64
  deriving DecidableEq, Repr

namespace Aclint

def init : Aclint := ⟨false, BitVec.allOnes 64⟩

def read (a : Aclint) (offset : Nat) (now : BitVec 64) : BitVec 32 :=
  match offset with
  | 0 => if a.msip then 1 else 0
  | 0x4000 => a.timecmp.setWidth 32
  | 0x4004 => (a.timecmp >>> 32).setWidth 32
  | 0xbff8 => now.setWidth 32
  | 0xbffc => (now >>> 32).setWidth 32
  | _ => 0

def write (a : Aclint) (offset : Nat) (value : BitVec 32) : Aclint :=
  match offset with
  | 0 => { a with msip := value &&& 1 ≠ 0 }
  | 0x4000 => { a with timecmp := (a.timecmp &&& ~~~0xffffffff) ||| value.setWidth 64 }
  | 0x4004 => { a with timecmp := (a.timecmp &&& 0xffffffff) ||| value.setWidth 64 <<< 32 }
  | _ => a

def softwareInterrupt (a : Aclint) : Bool := a.msip

def timerInterrupt (a : Aclint) (now : BitVec 64) : Bool := decide (now ≥ a.timecmp)

end Aclint

/-! ## The platform-level interrupt controller -/

abbrev machineContext : Fin 2 := 0
abbrev supervisorContext : Fin 2 := 1

/-- The controller; its two contexts are machine and supervisor mode of the hart. -/
structure Plic where
  level : BitVec 32
  pending : BitVec 32
  claimed : Fin 2 → BitVec 32
  priority : Fin 32 → BitVec 8
  enable : Fin 2 → BitVec 32
  threshold : Fin 2 → BitVec 8

namespace Plic

def init : Plic where
  level := 0
  pending := 0
  claimed := fun _ => 0
  priority := fun _ => 0
  enable := fun _ => 0
  threshold := fun _ => 0

/-- Whether the source may be the best one of the context. -/
def candidate (p : Plic) (context : Fin 2) (checkThreshold : Bool) (irq : Nat) : Bool :=
  (p.pending &&& p.enable context).getLsbD irq &&
    (!checkThreshold || decide (p.priority (Fin.ofNat 32 irq) > p.threshold context))

/-- One turn of the loop of `best_irq`, on the best source so far and its priority. -/
def better (p : Plic) (context : Fin 2) (checkThreshold : Bool) (best : Nat × BitVec 8)
    (irq : Nat) : Nat × BitVec 8 :=
  let priority := p.priority (Fin.ofNat 32 irq)
  if p.candidate context checkThreshold irq ∧ priority > best.2 then (irq, priority) else best

def bestIrq (p : Plic) (context : Fin 2) (checkThreshold : Bool) : Nat :=
  ((List.range' 1 31).foldl (p.better context checkThreshold) (0, 0)).1

def irqMask (irq : Nat) : BitVec 32 := (1 : BitVec 32) <<< irq

def setIrq (p : Plic) (irq : Nat) (asserted : Bool) : Plic :=
  if irq < 1 ∨ 32 ≤ irq then p
  else
    let mask := irqMask irq
    if asserted then
      { p with
        level := p.level ||| mask
        pending :=
          if p.claimed 0 &&& mask = 0 ∧ p.claimed 1 &&& mask = 0 then p.pending ||| mask
          else p.pending }
    else { p with level := p.level &&& ~~~mask }

def claim (p : Plic) (context : Fin 2) : Nat × Plic :=
  let irq := p.bestIrq context true
  if irq = 0 then (irq, p)
  else
    let mask := irqMask irq
    (irq,
      { p with
        pending := p.pending &&& ~~~mask
        claimed := Function.update p.claimed context (p.claimed context ||| mask) })

def complete (p : Plic) (context : Fin 2) (irq : Nat) : Plic :=
  if irq < 1 ∨ 32 ≤ irq then p
  else
    let mask := irqMask irq
    if p.claimed context &&& mask = 0 then p
    else
      { p with
        claimed := Function.update p.claimed context (p.claimed context &&& ~~~mask)
        pending := if p.level &&& mask ≠ 0 then p.pending ||| mask else p.pending }

def read (p : Plic) (offset : Nat) : BitVec 32 × Plic :=
  if offset < 128 ∧ offset % 4 = 0 then
    ((p.priority (Fin.ofNat 32 (offset / 4))).setWidth 32, p)
  else
    match offset with
    | 0x1000 => (p.pending, p)
    | 0x2000 => (p.enable 0, p)
    | 0x2080 => (p.enable 1, p)
    | 0x200000 => ((p.threshold 0).setWidth 32, p)
    | 0x200004 => let (irq, p) := p.claim 0; (BitVec.ofNat 32 irq, p)
    | 0x201000 => ((p.threshold 1).setWidth 32, p)
    | 0x201004 => let (irq, p) := p.claim 1; (BitVec.ofNat 32 irq, p)
    | _ => (0, p)

def write (p : Plic) (offset : Nat) (value : BitVec 32) : Plic :=
  if 4 ≤ offset ∧ offset < 128 ∧ offset % 4 = 0 then
    { p with priority :=
        Function.update p.priority (Fin.ofNat 32 (offset / 4)) ((value &&& 7).setWidth 8) }
  else
    match offset with
    | 0x2000 => { p with enable := Function.update p.enable 0 (value &&& ~~~1) }
    | 0x2080 => { p with enable := Function.update p.enable 1 (value &&& ~~~1) }
    | 0x200000 => { p with threshold := Function.update p.threshold 0 ((value &&& 7).setWidth 8) }
    | 0x200004 => p.complete 0 value.toNat
    | 0x201000 => { p with threshold := Function.update p.threshold 1 ((value &&& 7).setWidth 8) }
    | 0x201004 => p.complete 1 value.toNat
    | _ => p

def cpuInterrupts (p : Plic) : BitVec 32 :=
  let mask : BitVec 32 := if p.bestIrq 0 true ≠ 0 then mipMeip else 0
  if p.bestIrq 1 true ≠ 0 then mask ||| mipSeip else mask

/-- The line of the context: a source is pending and enabled, and its priority is above
the threshold. -/
def Line (p : Plic) (context : Fin 2) : Prop :=
  ∃ irq, 1 ≤ irq ∧ irq < 32 ∧ p.pending.getLsbD irq = true ∧
    (p.enable context).getLsbD irq = true ∧
    p.priority (Fin.ofNat 32 irq) > p.threshold context

/-- The source may be claimed by the context. -/
def Ready (p : Plic) (context : Fin 2) (irq : Nat) : Prop :=
  p.pending.getLsbD irq = true ∧ (p.enable context).getLsbD irq = true ∧
    p.priority (Fin.ofNat 32 irq) > p.threshold context

/-- Of the sources in `irqs`, the one with the highest priority, and of these the lowest. -/
def Selects (p : Plic) (context : Fin 2) (irqs : List Nat) (irq : Nat) : Prop :=
  irq ∈ irqs ∧ p.Ready context irq ∧ ∀ i ∈ irqs, p.Ready context i →
    p.priority (Fin.ofNat 32 i) < p.priority (Fin.ofNat 32 irq) ∨
      (p.priority (Fin.ofNat 32 i) = p.priority (Fin.ofNat 32 irq) ∧ irq ≤ i)

/-- What the loop holds after the sources `irqs`. -/
def Holds (p : Plic) (context : Fin 2) (irqs : List Nat) (best : Nat × BitVec 8) : Prop :=
  (best = (0, 0) ∧ ∀ i ∈ irqs, ¬p.Ready context i) ∨
    (best.2 = p.priority (Fin.ofNat 32 best.1) ∧ p.Selects context irqs best.1)

theorem candidate_iff {p : Plic} {context : Fin 2} {irq : Nat} :
    p.candidate context true irq = true ↔ p.Ready context irq := by
  unfold candidate Ready
  simp [BitVec.getLsbD_and, and_assoc]

theorem Ready.priority_pos {p : Plic} {context : Fin 2} {irq : Nat} (h : p.Ready context irq) :
    p.priority (Fin.ofNat 32 irq) > 0 := by
  have habove := h.2.2
  rw [gt_iff_lt, BitVec.lt_def] at habove ⊢
  exact Nat.lt_of_le_of_lt (Nat.zero_le _) habove

theorem better_holds {p : Plic} {context : Fin 2} {irqs : List Nat} {best : Nat × BitVec 8}
    {irq : Nat} (h : p.Holds context irqs best) (hirqs : ∀ i ∈ irqs, i < irq) :
    p.Holds context (irqs ++ [irq]) (p.better context true best irq) := by
  unfold better
  dsimp only
  by_cases hready : p.Ready context irq
  · have hcandidate := candidate_iff.mpr hready
    rcases h with ⟨rfl, hnone⟩ | ⟨hpriority, hmem, hbest, hmost⟩
    · rw [if_pos ⟨hcandidate, hready.priority_pos⟩]
      right
      refine ⟨rfl, List.mem_append_right _ (List.mem_singleton_self irq), hready, ?_⟩
      intro i hi hi'
      rcases List.mem_append.mp hi with hi | hi
      · exact absurd hi' (hnone i hi)
      · rw [List.mem_singleton.mp hi]
        exact .inr ⟨rfl, Nat.le_refl irq⟩
    · by_cases hhigher : p.priority (Fin.ofNat 32 irq) > best.2
      · rw [if_pos ⟨hcandidate, hhigher⟩]
        right
        refine ⟨rfl, List.mem_append_right _ (List.mem_singleton_self irq), hready, ?_⟩
        intro i hi hi'
        rcases List.mem_append.mp hi with hi | hi
        · left
          rw [hpriority] at hhigher
          rcases hmost i hi hi' with hlt | ⟨heq, -⟩
          · exact BitVec.lt_trans hlt hhigher
          · rw [heq]
            exact hhigher
        · rw [List.mem_singleton.mp hi]
          exact .inr ⟨rfl, Nat.le_refl irq⟩
      · rw [if_neg fun hboth => hhigher hboth.2]
        right
        refine ⟨hpriority, List.mem_append_left _ hmem, hbest, ?_⟩
        intro i hi hi'
        rcases List.mem_append.mp hi with hi | hi
        · exact hmost i hi hi'
        · rw [List.mem_singleton.mp hi]
          rw [hpriority] at hhigher
          have hle := BitVec.le_def.mp (BitVec.not_lt.mp hhigher)
          rcases Nat.lt_or_eq_of_le hle with hlt | heq
          · exact .inl (BitVec.lt_def.mpr hlt)
          · exact .inr ⟨BitVec.eq_of_toNat_eq heq, Nat.le_of_lt (hirqs _ hmem)⟩
  · rw [if_neg fun hboth => hready (candidate_iff.mp hboth.1)]
    rcases h with ⟨rfl, hnone⟩ | ⟨hpriority, hmem, hbest, hmost⟩
    · left
      refine ⟨rfl, fun i hi => ?_⟩
      rcases List.mem_append.mp hi with hi | hi
      · exact hnone i hi
      · rw [List.mem_singleton.mp hi]
        exact hready
    · right
      refine ⟨hpriority, List.mem_append_left _ hmem, hbest, fun i hi hi' => ?_⟩
      rcases List.mem_append.mp hi with hi | hi
      · exact hmost i hi hi'
      · rw [List.mem_singleton.mp hi] at hi'
        exact absurd hi' hready

theorem foldl_holds {p : Plic} {context : Fin 2} (irqs : List Nat) :
    ∀ (seen : List Nat) (best : Nat × BitVec 8), p.Holds context seen best →
      (seen ++ irqs).Pairwise (· < ·) →
      p.Holds context (seen ++ irqs) (irqs.foldl (p.better context true) best) := by
  induction irqs with
  | nil =>
    intro seen best h _
    rw [List.append_nil]
    exact h
  | cons irq irqs ih =>
    intro seen best h hsorted
    have hsplit : seen ++ irq :: irqs = seen ++ [irq] ++ irqs := by
      rw [List.append_assoc, List.singleton_append]
    rw [hsplit] at hsorted ⊢
    have hbelow : ∀ i ∈ seen, i < irq := by
      intro i hi
      have hfront := (List.pairwise_append.mp hsorted).1
      exact (List.pairwise_append.mp hfront).2.2 i hi irq (List.mem_singleton_self irq)
    exact ih (seen ++ [irq]) _ (better_holds h hbelow) hsorted

/-- The sources of the controller. -/
def sources : List Nat := List.range' 1 31

theorem mem_sources {irq : Nat} : irq ∈ sources ↔ 1 ≤ irq ∧ irq < 32 := by
  unfold sources
  rw [List.mem_range'_1]

/-- The loop finds the best source, or 0 where no source is ready. -/
theorem bestIrq_cases (p : Plic) (context : Fin 2) :
    (p.bestIrq context true = 0 ∧ ∀ i ∈ sources, ¬p.Ready context i) ∨
      p.Selects context sources (p.bestIrq context true) := by
  have hsorted : sources.Pairwise (· < ·) := List.pairwise_lt_range'
  have hstart : p.Holds context [] (0, 0) := .inl ⟨rfl, fun i hi => absurd hi List.not_mem_nil⟩
  rcases foldl_holds sources [] (0, 0) hstart hsorted with ⟨hbest, hnone⟩ | ⟨-, hselects⟩
  · left
    exact ⟨congrArg Prod.fst hbest, hnone⟩
  · right
    exact hselects

theorem bestIrq_lt (p : Plic) (context : Fin 2) : p.bestIrq context true < 32 := by
  rcases p.bestIrq_cases context with ⟨hzero, -⟩ | ⟨hmem, -⟩
  · omega
  · exact (mem_sources.mp hmem).2

/-- The loop finds a source exactly when the line is raised. -/
theorem bestIrq_ne_zero (p : Plic) (context : Fin 2) :
    p.bestIrq context true ≠ 0 ↔ p.Line context := by
  rcases p.bestIrq_cases context with ⟨hzero, hnone⟩ | ⟨hmem, hready, -⟩
  · constructor
    · exact fun hne => absurd hzero hne
    · rintro ⟨irq, hone, hlt, hline⟩
      exact absurd hline (hnone irq (mem_sources.mpr ⟨hone, hlt⟩))
  · have hbounds := mem_sources.mp hmem
    exact ⟨fun _ => ⟨_, hbounds.1, hbounds.2, hready⟩, fun _ => by omega⟩

instance (p : Plic) (context : Fin 2) : Decidable (p.Line context) :=
  decidable_of_iff _ (p.bestIrq_ne_zero context)

end Plic

end Platform
end Riscbox

import Riscbox.Collections.Rates
import Riscbox.Runtime.Quantum

/-!
# Deadlines of a quantum

The cycles that a quantum still has to consume until a guest tick is due.
-/

namespace Riscbox
namespace Runtime
namespace ActiveQuantum

open Rates

/-- The same quantum after further cycles. -/
def consume (cycles : Nat) (quantum : ActiveQuantum) : ActiveQuantum :=
  { quantum with consumedCycles := quantum.consumedCycles + cycles }

/-- The guest ticks since the quantum started. -/
def elapsedTicks (quantum : ActiveQuantum) : Nat :=
  scaled quantum.cyclesPerHostSecond quantum.guestTicksPerHostSecond quantum.consumedCycles

/-- The fields fit their types, and the rates are positive. -/
structure Rated (quantum : ActiveQuantum) : Prop where
  cycleRate : 0 < quantum.cyclesPerHostSecond
  cycleRate_le : quantum.cyclesPerHostSecond ≤ u64Max
  tickRate : 0 < quantum.guestTicksPerHostSecond
  tickRate_le : quantum.guestTicksPerHostSecond ≤ u64Max
  consumed_le : quantum.consumedCycles ≤ u64Max

variable {quantum : ActiveQuantum} {remaining cycles : Nat}

theorem Rated.consume (h : quantum.Rated) (hcycles : quantum.consumedCycles + cycles ≤ u64Max) :
    (quantum.consume cycles).Rated :=
  { h with consumed_le := hcycles }

theorem Rated.elapsed_consume (h : quantum.Rated) :
    quantum.elapsedTicks ≤ (quantum.consume cycles).elapsedTicks :=
  scaled_mono h.cycleRate h.tickRate (Nat.le_add_right _ _)

theorem mul_le_u128Max {a b c : Nat} (ha : a ≤ u64Max) (hb : b ≤ u64Max) (hc : c ≤ u64Max) :
    a * b + c ≤ u128Max := by
  have hab : a * b ≤ u64Max * u64Max := Nat.mul_le_mul ha hb
  have hall : u64Max * u64Max + u64Max ≤ u128Max := by decide
  omega

theorem Rated.product_le (h : quantum.Rated) :
    quantum.consumedCycles * quantum.guestTicksPerHostSecond ≤ u128Max := by
  have hle := mul_le_u128Max h.consumed_le h.tickRate_le (Nat.zero_le u64Max)
  omega

/-- Guest time is the saturating sum of the start and the elapsed ticks. -/
theorem Rated.guestTicks_eq (h : quantum.Rated) :
    quantum.guestTicks =
      .ok (min (quantum.startGuestTicks + min quantum.elapsedTicks u64Max) u64Max) := by
  have hrate : quantum.cyclesPerHostSecond ≠ 0 := h.cycleRate.ne'
  unfold guestTicks fits quotient
  rw [if_pos h.product_le, Outcome.ok_bind, if_neg hrate, Outcome.ok_bind]
  rfl

/-- Without saturation. -/
theorem Rated.guestTicks_ok (h : quantum.Rated)
    (hle : quantum.startGuestTicks + quantum.elapsedTicks ≤ u64Max) :
    quantum.guestTicks = .ok (quantum.startGuestTicks + quantum.elapsedTicks) := by
  rw [h.guestTicks_eq]
  congr 1
  omega

/-- The numerator of the inversion has no need of its saturation. -/
theorem Rated.numerator_le (h : quantum.Rated)
    (hdue : quantum.startGuestTicks + (quantum.elapsedTicks + remaining) ≤ u64Max) :
    (quantum.elapsedTicks + remaining) * quantum.cyclesPerHostSecond +
      (quantum.guestTicksPerHostSecond - 1) ≤ u128Max := by
  have hoffset : quantum.elapsedTicks + remaining ≤ u64Max := by omega
  have hround : quantum.guestTicksPerHostSecond - 1 ≤ u64Max := by
    have := h.tickRate_le
    omega
  exact mul_le_u128Max hoffset h.cycleRate_le hround

theorem Rated.cyclesUntilDeadline_eq (h : quantum.Rated)
    (hdue : quantum.startGuestTicks + (quantum.elapsedTicks + remaining) ≤ u64Max) :
    quantum.cyclesUntilDeadline remaining =
      .ok (min (max (needed quantum.cyclesPerHostSecond quantum.guestTicksPerHostSecond
        (quantum.elapsedTicks + remaining) - quantum.consumedCycles) 1) u32Max) := by
  have hle := h.numerator_le hdue
  have hnow : quantum.startGuestTicks + quantum.elapsedTicks ≤ u64Max := by omega
  have hstart : quantum.startGuestTicks ≤ quantum.startGuestTicks + quantum.elapsedTicks := by
    omega
  have helapsed : quantum.startGuestTicks + quantum.elapsedTicks - quantum.startGuestTicks =
      quantum.elapsedTicks := by omega
  have hoffset : quantum.elapsedTicks + remaining ≤ u128Max := by
    have : u64Max ≤ u128Max := by decide
    omega
  have hround : 1 ≤ quantum.guestTicksPerHostSecond := h.tickRate
  have hrate : quantum.guestTicksPerHostSecond ≠ 0 := h.tickRate.ne'
  have hproduct : min ((quantum.elapsedTicks + remaining) * quantum.cyclesPerHostSecond)
      u128Max = (quantum.elapsedTicks + remaining) * quantum.cyclesPerHostSecond := by
    omega
  unfold cyclesUntilDeadline difference fits quotient
  rw [h.guestTicks_ok hnow, Outcome.ok_bind, if_pos hstart, helapsed, Outcome.ok_bind,
    if_pos hoffset, Outcome.ok_bind, if_pos hround, Outcome.ok_bind]
  dsimp only
  rw [if_neg hrate, Outcome.ok_bind, hproduct, min_eq_left hle]
  rfl

/-- A deadline is due once its cycles are consumed. -/
theorem Rated.due (h : quantum.Rated)
    (hcycles : needed quantum.cyclesPerHostSecond quantum.guestTicksPerHostSecond
      (quantum.elapsedTicks + remaining) ≤ quantum.consumedCycles + cycles) :
    quantum.elapsedTicks + remaining ≤ (quantum.consume cycles).elapsedTicks :=
  (needed_le_iff h.cycleRate h.tickRate _ _).mp hcycles

/-- And not before. -/
theorem Rated.not_due (h : quantum.Rated)
    (hcycles : quantum.consumedCycles + cycles <
      needed quantum.cyclesPerHostSecond quantum.guestTicksPerHostSecond
        (quantum.elapsedTicks + remaining)) :
    (quantum.consume cycles).elapsedTicks < quantum.elapsedTicks + remaining :=
  (scaled_lt_iff h.cycleRate h.tickRate _ _).mpr hcycles

/-- The next CPU run ends at the deadline or at the budget. -/
theorem cycleLimit_some (hcycles : quantum.cyclesUntilDeadline remaining = .ok cycles)
    (hbudget : quantum.consumedCycles ≤ quantum.budgetCycles) :
    quantum.cycleLimit (some remaining) =
      .ok (min (quantum.budgetCycles - quantum.consumedCycles) cycles) := by
  unfold cycleLimit difference
  rw [if_pos hbudget, Outcome.ok_bind]
  dsimp only
  rw [hcycles, Outcome.ok_bind, Outcome.pure_eq]

/-- The cycles to a deadline are the first at which it is due; at the largest count of a
CPU run it may lie further on. -/
theorem cyclesUntilDeadline_exact (h : quantum.Rated)
    (hdue : quantum.startGuestTicks + (quantum.elapsedTicks + remaining) ≤ u64Max) :
    ∃ ticks cycles,
      quantum.guestTicks = .ok ticks ∧
      quantum.cyclesUntilDeadline remaining = .ok cycles ∧
      quantum.consumedCycles * quantum.guestTicksPerHostSecond ≤ u128Max ∧
      (quantum.elapsedTicks + remaining) * quantum.cyclesPerHostSecond +
        (quantum.guestTicksPerHostSecond - 1) ≤ u128Max ∧
      1 ≤ cycles ∧ cycles ≤ u32Max ∧
      (cycles < u32Max → quantum.consumedCycles + cycles ≤ u64Max →
        ∃ later, (quantum.consume cycles).guestTicks = .ok later ∧ ticks + remaining ≤ later) ∧
      (∀ fewer, 1 ≤ fewer → fewer < cycles → quantum.consumedCycles + fewer ≤ u64Max →
        ∃ later, (quantum.consume fewer).guestTicks = .ok later ∧
          later < ticks + remaining) ∧
      (quantum.consumedCycles ≤ quantum.budgetCycles →
        quantum.cycleLimit (some remaining) =
          .ok (min (quantum.budgetCycles - quantum.consumedCycles) cycles)) := by
  have hnow : quantum.startGuestTicks + quantum.elapsedTicks ≤ u64Max := by omega
  have hmax : 1 ≤ u32Max := by decide
  have hequal := h.cyclesUntilDeadline_eq hdue
  generalize hcycles : min (max (needed _ _ _ - _) 1) u32Max = cycles at hequal
  refine ⟨_, cycles, h.guestTicks_ok hnow, hequal, h.product_le, h.numerator_le hdue,
    by omega, by omega, ?_, ?_, cycleLimit_some hequal⟩
  · intro hsmall hfits
    have hreached : quantum.elapsedTicks + remaining ≤ (quantum.consume cycles).elapsedTicks :=
      h.due (by omega)
    refine ⟨_, (h.consume hfits).guestTicks_eq, ?_⟩
    show _ ≤ min (quantum.startGuestTicks + _) _
    omega
  · intro fewer hone hfewer hfits
    have hbefore : (quantum.consume fewer).elapsedTicks < quantum.elapsedTicks + remaining :=
      h.not_due (by omega)
    have hle : quantum.startGuestTicks + (quantum.consume fewer).elapsedTicks ≤ u64Max := by
      omega
    refine ⟨_, (h.consume hfits).guestTicks_ok hle, ?_⟩
    show quantum.startGuestTicks + _ < _
    omega

/-- At two cycles and nine ticks in a host second, after three cycles. -/
theorem cyclesUntilDeadline_exact_ratio :
    ∃ ticks cycles,
      (⟨100, 2, 9, 0, 1000, 3, 0, 0, 0, [], false, 0, none⟩ : ActiveQuantum).guestTicks =
        .ok ticks ∧
      (⟨100, 2, 9, 0, 1000, 3, 0, 0, 0, [], false, 0, none⟩ : ActiveQuantum).cyclesUntilDeadline
        5 = .ok cycles ∧
      1 ≤ cycles ∧ cycles ≤ u32Max := by
  have hrated : (⟨100, 2, 9, 0, 1000, 3, 0, 0, 0, [], false, 0, none⟩ : ActiveQuantum).Rated :=
    ⟨by decide, by decide, by decide, by decide, by decide⟩
  have hdue : 100 + ((⟨100, 2, 9, 0, 1000, 3, 0, 0, 0, [], false, 0, none⟩ :
      ActiveQuantum).elapsedTicks + 5) ≤ u64Max := by decide
  obtain ⟨ticks, cycles, hticks, hcycles, _, _, hone, hmax, _⟩ :=
    cyclesUntilDeadline_exact hrated hdue
  exact ⟨ticks, cycles, hticks, hcycles, hone, hmax⟩

end ActiveQuantum
end Runtime
end Riscbox

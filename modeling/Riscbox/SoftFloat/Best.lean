import Riscbox.SoftFloat.Sum

/-!
# The rounded number is the best one

No number of the format is nearer to the exact value, or between it and the rounded one.
-/

namespace Riscbox
namespace SoftFloat

open Rounding Format

attribute [local instance] atLeastTwo

variable {F : Format} {rm : RoundingMode} {s : Bool} {fflags : BitVec 32}

/-- Among the numbers of the format `r` is the one that the rounding mode asks for. -/
structure IsBest (rm : RoundingMode) (x : ℝ) (r : F.Word) : Prop where
  nearest : rm = .rne ∨ rm = .rmm → ∀ b : F.Word, |x - value r| ≤ |x - value b|
  down : rm = .rdn → value r ≤ x ∧ ∀ b : F.Word, value b ≤ x → value b ≤ value r
  up : rm = .rup → x ≤ value r ∧ ∀ b : F.Word, x ≤ value b → value r ≤ value b
  truncated : rm = .rtz → |value r| ≤ |x| ∧ ∀ b : F.Word, |value b| ≤ |x| → |value b| ≤ |value r|

theorem value_le_magnitude (b : F.Word) : value b ≤ magnitude b ∧ -magnitude b ≤ value b := by
  have hnonneg := magnitude_nonneg b
  rw [value_eq, signed]
  split <;> constructor <;> linarith

theorem abs_value (b : F.Word) : |value b| = magnitude b := by
  have hnonneg := magnitude_nonneg b
  rw [value_eq, signed]
  split
  · rw [abs_neg, abs_of_nonneg hnonneg]
  · exact abs_of_nonneg hnonneg

/-- A number is no nearer than its magnitude with the sign of the exact value. -/
theorem distance_le {x : ℝ} (hx : 0 < x) (b : F.Word) :
    |x - magnitude b| ≤ |signed s x - value b| := by
  have hbound := value_le_magnitude b
  have habs := abs_value b
  cases s with
  | false =>
    have htriangle := abs_abs_sub_abs_le x (value b)
    rw [abs_of_pos hx, habs] at htriangle
    exact htriangle
  | true =>
    have htriangle := abs_abs_sub_abs_le (-x) (value b)
    rw [abs_neg, abs_of_pos hx, habs] at htriangle
    exact htriangle

theorem distance_eq {x : ℝ} {r : F.Word} (hsign : signOf r = s) :
    |signed s x - value r| = |x - magnitude r| := by
  rw [value_eq, hsign]
  cases s with
  | false => rfl
  | true =>
    rw [signed, signed, if_pos rfl, if_pos rfl, ← abs_neg]
    congr 1
    ring

/-- The magnitude rounded toward zero is the greatest that is not above. -/
theorem toward_best {x : ℝ} (hx : 0 < x) {r : F.Word}
    (hr : magnitude r = roundFloat .towardZero F.mantSize F.emin x) :
    magnitude r ≤ x ∧ ∀ b : F.Word, magnitude b ≤ x → magnitude b ≤ magnitude r := by
  have hzero : magnitude (0 : F.Word) ≤ x := by
    rw [magnitude_eq_zero_iff.mpr ⟨by simp [expOf], by simp [mantOf]⟩]
    exact hx.le
  rw [hr]
  exact ⟨(roundFloat_towardZero hx (magnitude_isFloat _) hzero).2,
    fun b hb => (roundFloat_towardZero hx (magnitude_isFloat b) hb).1⟩

/-- The magnitude rounded away from zero is the least that is not below. -/
theorem away_best {x : ℝ} (hx : 0 < x) {r : F.Word}
    (hr : magnitude r = roundFloat .awayFromZero F.mantSize F.emin x) :
    x ≤ magnitude r ∧ ∀ b : F.Word, x ≤ magnitude b → magnitude r ≤ magnitude b := by
  have hceil : x ≤ roundFloat .awayFromZero F.mantSize F.emin x :=
    (div_le_iff₀ ulp_pos).mp (Int.le_ceil _)
  rw [hr]
  exact ⟨hceil, fun b hb => (roundFloat_awayFromZero hx (magnitude_isFloat b) hb).1⟩

theorem value_cases (b : F.Word) : value b = magnitude b ∨ value b = -magnitude b := by
  rw [value_eq]
  cases signOf b
  · exact Or.inl rfl
  · exact Or.inr rfl

/-- Both signs of a number that is not above. -/
theorem toward_signed {x m : ℝ} (hm : 0 ≤ m) {b : F.Word} (hbest : magnitude b ≤ x → magnitude b ≤ m) :
    (value b ≤ x → value b ≤ m) ∧ (-x ≤ value b → -m ≤ value b) := by
  have hnonneg := magnitude_nonneg b
  obtain hb | hb := value_cases b
  · rw [hb]
    exact ⟨hbest, fun _ => by linarith⟩
  · rw [hb]
    exact ⟨fun _ => by linarith, fun h => neg_le_neg (hbest (neg_le_neg_iff.mp h))⟩

/-- Both signs of a number that is not below. -/
theorem away_signed {x m : ℝ} (hx : 0 < x) {b : F.Word} (hbest : x ≤ magnitude b → m ≤ magnitude b) :
    (x ≤ value b → m ≤ value b) ∧ (value b ≤ -x → value b ≤ -m) := by
  have hnonneg := magnitude_nonneg b
  obtain hb | hb := value_cases b
  · rw [hb]
    exact ⟨hbest, fun h => by linarith⟩
  · rw [hb]
    exact ⟨fun h => by linarith, fun h => neg_le_neg (hbest (neg_le_neg_iff.mp h))⟩

variable {x : ℝ} {r : F.Result}

/-- An exact zero is kept. -/
theorem IsBest.of_zero {r : F.Word} (h : magnitude r = 0) : IsBest rm 0 r := by
  have hr : value r = 0 := abs_eq_zero.mp ((abs_value r).trans h)
  constructor
  · intro _ b
    rw [hr, sub_zero, abs_zero]
    exact abs_nonneg _
  · intro _
    rw [hr]
    exact ⟨le_refl 0, fun _ hb => hb⟩
  · intro _
    rw [hr]
    exact ⟨le_refl 0, fun _ hb => hb⟩
  · intro _
    rw [hr]
    exact ⟨le_refl _, fun _ hb => hb⟩

theorem IsRounded.best_pos (hx : 0 < x) (hover : ¬ Overflows F rm s x)
    (h : IsRounded F rm s x fflags r) : IsBest rm (signed s x) r.1 := by
  obtain ⟨_, hsign, hvalue, _⟩ := h.inRange hover
  have hr : value r.1 = signed s (magnitude r.1) := by rw [value_eq, hsign]
  have habs : |signed s x| = x := by
    cases s
    · exact abs_of_pos hx
    · exact (abs_neg x).trans (abs_of_pos hx)
  constructor
  · intro hmode b
    have hnearest : (rm.direction s).nearest := by
      obtain rfl | rfl := hmode <;> trivial
    have hbest := roundFloat_nearest hnearest hx (magnitude_isFloat b)
    rw [distance_eq hsign, hvalue]
    exact hbest.trans (distance_le hx b)
  · rintro rfl
    rw [hr]
    cases s with
    | false =>
      obtain ⟨hle, hbest⟩ := toward_best hx hvalue
      exact ⟨hle, fun b => (toward_signed (magnitude_nonneg _) (hbest b)).1⟩
    | true =>
      obtain ⟨hle, hbest⟩ := away_best hx hvalue
      exact ⟨neg_le_neg hle, fun b => (away_signed hx (hbest b)).2⟩
  · rintro rfl
    rw [hr]
    cases s with
    | false =>
      obtain ⟨hle, hbest⟩ := away_best hx hvalue
      exact ⟨hle, fun b => (away_signed hx (hbest b)).1⟩
    | true =>
      obtain ⟨hle, hbest⟩ := toward_best hx hvalue
      exact ⟨neg_le_neg hle, fun b => (toward_signed (magnitude_nonneg _) (hbest b)).2⟩
  · rintro rfl
    rw [abs_value, habs]
    obtain ⟨hle, hbest⟩ := toward_best hx hvalue
    refine ⟨hle, fun b hb => ?_⟩
    rw [abs_value] at hb ⊢
    exact hbest b hb

/-- A correctly rounded number is the best one of the format. -/
theorem IsRounded.best (hx : 0 ≤ x) (hover : ¬ Overflows F rm s x)
    (h : IsRounded F rm s x fflags r) : IsBest rm (signed s x) r.1 := by
  obtain hzero | hpos := hx.eq_or_lt
  · obtain ⟨_, _, hvalue, _⟩ := h.inRange hover
    rw [← hzero, rounded, roundFloat_zero] at hvalue
    have hsigned : signed s x = 0 := by
      rw [← hzero]
      cases s
      · rfl
      · exact neg_zero
    rw [hsigned]
    exact IsBest.of_zero hvalue
  · exact h.best_pos hpos hover

end SoftFloat
end Riscbox

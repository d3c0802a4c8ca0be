import Riscbox.Arithmetic.Precision
import Riscbox.SoftFloat.Words

/-!
# The values of the numbers, and correct rounding

The meaning that the IEEE standard gives to a word, and what it asks of an operation whose
exact result is a given real number.
-/

namespace Riscbox
namespace SoftFloat

open Rounding Format

attribute [local instance] atLeastTwo

/-! ## Values -/

namespace Format

variable (F : Format)

/-- `EXP_MASK / 2`. -/
def bias : Int := F.expMask / 2

/-- The least exponent of a normal number. -/
def emin : Int := 1 - F.bias

theorem expMask_eq : (F.expMask : Int) = 2 * F.bias + 1 := by
  have hsucc := F.expMask_succ
  have hexp := F.expSize_ge
  have hpow : 2 ^ F.expSize = 2 * 2 ^ (F.expSize - 1) := by
    rw [← pow_succ']
    congr 1
    omega
  unfold bias
  omega

theorem bias_succ : F.bias + 1 = 2 ^ (F.expSize - 1) := by
  have hmask := F.expMask_eq
  have hsucc := F.expMask_succ
  have hexp := F.expSize_ge
  have hpow : 2 ^ F.expSize = 2 * 2 ^ (F.expSize - 1) := by
    rw [← pow_succ']
    congr 1
    omega
  have hint : ((2 ^ (F.expSize - 1) : ℕ) : ℤ) = F.bias + 1 := by omega
  rw [← hint]
  push_cast
  rfl

theorem bias_ge : 15 ≤ F.bias := by
  have hmask := F.expMask_eq
  have hge := F.expMask_ge
  omega

end Format

variable {F : Format} {a b : F.Word}

/-- The mantissa with its leading bit, which a subnormal number lacks. -/
def significand (a : F.Word) : Nat :=
  if expOf a = 0 then (mantOf a).toNat else 2 ^ F.mantSize + (mantOf a).toNat

/-- The exponent, of which the subnormal numbers have the least. -/
def scale (a : F.Word) : Nat := max (expOf a) 1

/-- The absolute value of a finite number. -/
noncomputable def magnitude (a : F.Word) : ℝ :=
  significand a * 2 ^ ((scale a : ℤ) - F.bias - F.mantSize)

/-- The value of a finite number. -/
noncomputable def value (a : F.Word) : ℝ := if signOf a then -magnitude a else magnitude a

def IsFinite (a : F.Word) : Prop := expOf a ≠ F.expMask

def IsInfinite (a : F.Word) : Prop := expOf a = F.expMask ∧ mantOf a = 0

def IsZero (a : F.Word) : Prop := expOf a = 0 ∧ mantOf a = 0

def IsNan (a : F.Word) : Prop := expOf a = F.expMask ∧ mantOf a ≠ 0

instance : Decidable (IsFinite a) := inferInstanceAs (Decidable (_ ≠ _))
instance : Decidable (IsInfinite a) := inferInstanceAs (Decidable (_ ∧ _))
instance : Decidable (IsZero a) := inferInstanceAs (Decidable (_ ∧ _))
instance : Decidable (IsNan a) := inferInstanceAs (Decidable (_ ∧ _))

theorem isZero_iff : IsZero a ↔ expOf a = 0 ∧ mantOf a = 0 := Iff.rfl

theorem significand_lt (a : F.Word) : significand a < 2 ^ (F.mantSize + 1) := by
  have hmant := mantOf_lt a
  have hpow : 2 ^ (F.mantSize + 1) = 2 * 2 ^ F.mantSize := pow_succ' 2 _
  unfold significand
  split <;> omega

theorem significand_ge (ha : expOf a ≠ 0) : 2 ^ F.mantSize ≤ significand a := by
  rw [significand, if_neg ha]
  exact Nat.le_add_right _ _

theorem scale_ge (a : F.Word) : 1 ≤ scale a := le_max_right _ _

theorem magnitude_nonneg (a : F.Word) : 0 ≤ magnitude a :=
  mul_nonneg (Nat.cast_nonneg _) (two_zpow_pos _).le

theorem magnitude_pos_iff : 0 < magnitude a ↔ significand a ≠ 0 := by
  unfold magnitude
  rw [mul_pos_iff_of_pos_right (two_zpow_pos _), Nat.cast_pos, Nat.pos_iff_ne_zero]

theorem significand_eq_zero_iff : significand a = 0 ↔ IsZero a := by
  have hpos := Nat.two_pow_pos F.mantSize
  unfold significand IsZero
  by_cases hexp : expOf a = 0
  · rw [if_pos hexp, toNat_eq_zero_iff]
    exact (and_iff_right hexp).symm
  · rw [if_neg hexp]
    constructor
    · omega
    · exact fun h => absurd h.1 hexp

theorem magnitude_eq_zero_iff : magnitude a = 0 ↔ IsZero a := by
  rw [← significand_eq_zero_iff, ← not_iff_not, ← ne_eq (significand a), ← magnitude_pos_iff]
  exact ⟨fun h => lt_of_le_of_ne (magnitude_nonneg a) (Ne.symm h), fun h => h.ne'⟩

/-- The part below the sign, as the significand at its scale. -/
theorem low_eq (a : F.Word) :
    a.toNat % 2 ^ (F.fSize - 1) + 2 ^ F.mantSize =
      scale a * 2 ^ F.mantSize + significand a := by
  rw [← fields_low, scale, significand]
  by_cases hexp : expOf a = 0
  · rw [if_pos hexp, hexp, max_eq_right (by decide : 0 ≤ 1)]
    omega
  · rw [if_neg hexp, max_eq_left (by omega : 1 ≤ expOf a)]
    omega

theorem significand_low (h : scale a ≠ 1) : 2 ^ F.mantSize ≤ significand a := by
  apply significand_ge
  intro hexp
  exact h (by rw [scale, hexp]; rfl)

/-- Without their signs the words are ordered as the values. -/
theorem magnitude_lt_of_low (h : a.toNat % 2 ^ (F.fSize - 1) < b.toNat % 2 ^ (F.fSize - 1)) :
    magnitude a < magnitude b := by
  have ha := low_eq a
  have hb := low_eq b
  have haLt := significand_lt a
  have hpow : 2 ^ (F.mantSize + 1) = 2 * 2 ^ F.mantSize := pow_succ' 2 _
  have hpos := Nat.two_pow_pos F.mantSize
  have hscale : scale a ≤ scale b := by
    by_contra hlt
    have hlow := significand_low (a := a) (by have := scale_ge b; omega)
    have hbLt := significand_lt b
    have hmul : (scale b + 1) * 2 ^ F.mantSize ≤ scale a * 2 ^ F.mantSize :=
      Nat.mul_le_mul_right _ (by omega)
    rw [Nat.add_mul, one_mul] at hmul
    omega
  unfold magnitude
  obtain heq | hlt := hscale.eq_or_lt
  · rw [heq] at ha ⊢
    have hsig : significand a < significand b := by omega
    exact mul_lt_mul_of_pos_right (by exact_mod_cast hsig) (two_zpow_pos _)
  · have hlow := significand_low (a := b) (by have := scale_ge a; omega)
    have hdouble : significand a < 2 * significand b := by omega
    have hcast : (significand a : ℝ) < 2 * significand b := by exact_mod_cast hdouble
    calc (significand a : ℝ) * 2 ^ ((scale a : ℤ) - F.bias - F.mantSize)
        < 2 * significand b * 2 ^ ((scale a : ℤ) - F.bias - F.mantSize) :=
          mul_lt_mul_of_pos_right hcast (two_zpow_pos _)
      _ = significand b * 2 ^ ((scale a : ℤ) + 1 - F.bias - F.mantSize) := by
          have hexp : (scale a : ℤ) + 1 - F.bias - F.mantSize =
              1 + ((scale a : ℤ) - F.bias - F.mantSize) := by ring
          rw [hexp, two_zpow_add, zpow_one]
          ring
      _ ≤ significand b * 2 ^ ((scale b : ℤ) - F.bias - F.mantSize) := by
          apply mul_le_mul_of_nonneg_left _ (Nat.cast_nonneg _)
          exact zpow_le_zpow_right₀ one_le_two (by omega)

theorem magnitude_lt_iff :
    magnitude a < magnitude b ↔ a.toNat % 2 ^ (F.fSize - 1) < b.toNat % 2 ^ (F.fSize - 1) := by
  refine ⟨fun h => ?_, magnitude_lt_of_low⟩
  by_contra hle
  obtain heq | hlt := (not_lt.mp hle).eq_or_lt
  · have hsame : magnitude a = magnitude b := by
      have ha := low_eq a
      have hfields := fields_low a
      rw [← heq, ← fields_low b] at hfields
      obtain ⟨hexp, hmant⟩ := fields_unique (mantOf_lt a) (mantOf_lt b) hfields
      unfold magnitude significand scale
      rw [hexp, hmant]
    exact absurd hsame h.ne
  · exact absurd h (magnitude_lt_of_low hlt).not_gt

theorem magnitude_eq_iff :
    magnitude a = magnitude b ↔ a.toNat % 2 ^ (F.fSize - 1) = b.toNat % 2 ^ (F.fSize - 1) := by
  have hlt := magnitude_lt_iff (a := a) (b := b)
  have hgt := magnitude_lt_iff (a := b) (b := a)
  constructor
  · intro h
    rw [h] at hlt hgt
    have := hlt.not.mp (lt_irrefl _)
    have := hgt.not.mp (lt_irrefl _)
    omega
  · intro h
    rw [h] at hlt hgt
    exact le_antisymm (not_lt.mp (hgt.not.mpr (lt_irrefl _)))
      (not_lt.mp (hlt.not.mpr (lt_irrefl _)))

/-- A finite number is determined by its sign and its magnitude. -/
theorem eq_of_magnitude (hsign : signOf a = signOf b) (h : magnitude a = magnitude b) : a = b := by
  have hlow := magnitude_eq_iff.mp h
  apply BitVec.eq_of_toNat_eq
  rw [word_eq a, word_eq b, fields_low, fields_low, hsign, hlow]

/-! ## Correct rounding -/

/-- Where a rounding mode sends the magnitude of a number of a sign. -/
def RoundingMode.direction (rm : RoundingMode) (s : Bool) : Direction :=
  match rm with
  | .rne => .nearestEven
  | .rmm => .nearestAway
  | .rtz => .towardZero
  | .rdn => if s then .awayFromZero else .towardZero
  | .rup => if s then .towardZero else .awayFromZero

variable (F) (rm : RoundingMode) (s : Bool) (x : ℝ)

/-- The magnitude rounded to the precision of the format, without a greatest exponent. -/
noncomputable def rounded : ℝ := roundFloat (rm.direction s) F.mantSize F.emin x

/-- The rounded magnitude is past the greatest finite one. -/
def Overflows : Prop := 2 ^ (F.bias + 1) ≤ rounded F rm s x

/-- Rounded as if there were no least exponent, the magnitude is below the normal ones. -/
def Tiny : Prop := roundNormal (rm.direction s) F.mantSize x < 2 ^ F.emin

/-- What an overflow gives: infinity, or the greatest finite number where the mode rounds
toward zero. -/
def overflowed : F.Word :=
  if rm.direction s = .towardZero then packSf F s (F.expMask - 1) F.mantMask
  else packSf F s F.expMask 0

open Classical in
/-- The flags of a rounding that does not overflow. -/
noncomputable def roundingFlags : BitVec 32 :=
  if rounded F rm s x = x then 0
  else if Tiny F rm s x then fflagUnderflow ||| fflagInexact
  else fflagInexact

/-- The result is the magnitude `x` with the sign `s`, correctly rounded. -/
structure IsRounded (fflags : BitVec 32) (r : F.Result) : Prop where
  inRange : ¬ Overflows F rm s x → IsFinite r.1 ∧ signOf r.1 = s ∧
    magnitude r.1 = rounded F rm s x ∧ r.2 = fflags ||| roundingFlags F rm s x
  overflow : Overflows F rm s x →
    r = (overflowed F rm s, fflags ||| (fflagOverflow ||| fflagInexact))

variable {F rm s x}

/-- There is at most one correctly rounded result. -/
theorem IsRounded.unique {fflags : BitVec 32} {r r' : F.Result}
    (h : IsRounded F rm s x fflags r) (h' : IsRounded F rm s x fflags r') : r = r' := by
  by_cases hover : Overflows F rm s x
  · rw [h.overflow hover, h'.overflow hover]
  · obtain ⟨_, hsign, hvalue, hflags⟩ := h.inRange hover
    obtain ⟨_, hsign', hvalue', hflags'⟩ := h'.inRange hover
    exact Prod.ext (eq_of_magnitude (hsign.trans hsign'.symm) (hvalue.trans hvalue'.symm))
      (hflags.trans hflags'.symm)

/-- A result is right for every exact magnitude that is rounded alike. -/
theorem IsRounded.congr {fflags : BitVec 32} {r : F.Result} {y : ℝ}
    (hrounded : rounded F rm s x = rounded F rm s y)
    (hexact : rounded F rm s x = x ↔ rounded F rm s y = y) (htiny : Tiny F rm s x ↔ Tiny F rm s y)
    (hr : IsRounded F rm s x fflags r) : IsRounded F rm s y fflags r := by
  have hflags : roundingFlags F rm s x = roundingFlags F rm s y := by
    unfold roundingFlags
    simp only [hexact]
    rw [propext htiny]
  constructor
  · intro hover
    unfold Overflows at hover
    rw [← hrounded] at hover
    obtain ⟨hfinite, hsign, hvalue, hbits⟩ := hr.inRange hover
    exact ⟨hfinite, hsign, hvalue.trans hrounded, hbits.trans (by rw [hflags])⟩
  · intro hover
    unfold Overflows at hover
    rw [← hrounded] at hover
    exact hr.overflow hover

/-- Half the spacing need not tell the exact magnitude apart. -/
theorem IsRounded.alike {fflags : BitVec 32} {r : F.Result} {y : ℝ} {j : ℤ} (hx : 0 < x)
    (hj : j + F.mantSize + 1 ≤ Int.log 2 x) (h : Alike (2 ^ j) x y)
    (hr : IsRounded F rm s x fflags r) : IsRounded F rm s y fflags r := by
  have hfloat := roundFloat_alike (d := rm.direction s) (l := F.emin) hx hj h
  have hnormal := roundNormal_alike (d := rm.direction s) hx hj h
  exact hr.congr hfloat.1 hfloat.2 (by rw [Tiny, Tiny, hnormal])

/-- A magnitude that only its sticky bit tells from zero. -/
def Minute (F : Format) (x : ℝ) : Prop := 0 < x ∧ x < 2 ^ (F.emin - F.mantSize - 1)

theorem IsRounded.minute {fflags : BitVec 32} {r : F.Result} {y : ℝ} (hx : Minute F x)
    (hy : Minute F y) (hr : IsRounded F rm s x fflags r) : IsRounded F rm s y fflags r := by
  have hfloat := roundFloat_tiny (d := rm.direction s) hx.1 hx.2 hy.1 hy.2
  apply hr.congr hfloat.1 hfloat.2
  exact iff_of_true (roundNormal_tiny hx.1 hx.2) (roundNormal_tiny hy.1 hy.2)

/-! ## Finite numbers are rounded to themselves -/

theorem magnitude_isFloat (a : F.Word) : IsFloat F.mantSize F.emin (magnitude a) := by
  have hscale := scale_ge a
  refine ⟨significand a, (scale a : ℤ) - F.bias, ?_, significand_lt a, rfl⟩
  unfold emin
  omega

theorem magnitude_lt (ha : IsFinite a) : magnitude a < 2 ^ (F.bias + 1) := by
  have hsig : (significand a : ℝ) < 2 ^ (F.mantSize + 1) := by exact_mod_cast significand_lt a
  have hexp : expOf a < F.expMask := lt_of_le_of_ne (expOf_le a) ha
  have hmask := F.expMask_eq
  have hge := F.expMask_ge
  have hscale : (scale a : ℤ) ≤ 2 * F.bias := by
    unfold scale
    omega
  calc magnitude a < 2 ^ (F.mantSize + 1) * 2 ^ ((scale a : ℤ) - F.bias - F.mantSize) :=
        mul_lt_mul_of_pos_right hsig (two_zpow_pos _)
    _ = 2 ^ ((scale a : ℤ) - F.bias + 1) := by
        rw [← zpow_natCast, ← two_zpow_add]
        congr 1
        push_cast
        ring
    _ ≤ 2 ^ (F.bias + 1) := zpow_le_zpow_right₀ one_le_two (by omega)

/-- The normal numbers are those from the least one on. -/
theorem normal_iff (a : F.Word) : 2 ^ F.emin ≤ magnitude a ↔ expOf a ≠ 0 := by
  have hemin : F.emin - F.mantSize = 1 - F.bias - F.mantSize := rfl
  have hsplit : (2 : ℝ) ^ F.emin = 2 ^ F.mantSize * 2 ^ (1 - F.bias - F.mantSize) := by
    rw [← hemin, ← zpow_natCast, ← two_zpow_add]
    congr 1
    ring
  constructor
  · intro hle hexp
    have hscale : scale a = 1 := by rw [scale, hexp]; rfl
    have hsig : significand a = (mantOf a).toNat := if_pos hexp
    have hmant : ((mantOf a).toNat : ℝ) < 2 ^ F.mantSize := by exact_mod_cast mantOf_lt a
    rw [hsplit, magnitude, hsig, hscale, Nat.cast_one] at hle
    exact absurd (le_of_mul_le_mul_right hle (two_zpow_pos _)) (not_le.mpr hmant)
  · intro hexp
    have hsig : (2 : ℝ) ^ F.mantSize ≤ significand a := by exact_mod_cast significand_ge hexp
    rw [hsplit, magnitude]
    apply mul_le_mul hsig _ (two_zpow_pos _).le (Nat.cast_nonneg _)
    have hscale := scale_ge a
    exact zpow_le_zpow_right₀ one_le_two (by omega)

theorem rounded_magnitude (a : F.Word) : rounded F rm s (magnitude a) = magnitude a := by
  obtain hzero | hpos := (magnitude_nonneg a).eq_or_lt
  · rw [← hzero]
    exact roundFloat_zero
  · exact roundFloat_eq_self hpos (magnitude_isFloat a)

/-- A finite number is its own correctly rounded value, with no flags. -/
theorem isRounded_self {fflags : BitVec 32} (ha : IsFinite a) :
    IsRounded F rm (signOf a) (magnitude a) fflags (a, fflags) := by
  have hover : ¬ Overflows F rm (signOf a) (magnitude a) := by
    rw [Overflows, rounded_magnitude]
    exact not_le.mpr (magnitude_lt ha)
  refine ⟨fun _ => ⟨ha, rfl, (rounded_magnitude a).symm, ?_⟩, fun h => absurd h hover⟩
  rw [roundingFlags, if_pos (rounded_magnitude a)]
  exact BitVec.or_zero.symm

end SoftFloat
end Riscbox

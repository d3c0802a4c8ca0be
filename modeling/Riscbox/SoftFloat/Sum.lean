import Riscbox.SoftFloat.Operands

/-!
# Sums

The bits of the smaller operand that are shifted out are never missed: where more than one
bit cancels, nothing has been shifted out.
-/

namespace Riscbox
namespace SoftFloat

open Rounding Format

attribute [local instance] atLeastTwo

variable {F : Format} {rm : RoundingMode} {fflags : BitVec 32} {a b : F.Word}

/-! ## Words without their signs -/

theorem absSf_toNat (a : F.Word) : (absSf a).toNat = a.toNat % 2 ^ (F.fSize - 1) := by
  have hsize := F.fSize_eq
  have hfull := two_pow_half (F := F)
  have hmask : ~~~F.signMask = F.bit (F.fSize - 1) - 1 := by
    apply BitVec.eq_of_toNat_eq
    rw [BitVec.toNat_not, signMask, bit_toNat (by omega), bit_sub_one_toNat (by omega)]
    omega
  rw [absSf, hmask, and_mask_toNat a (by omega)]

theorem absSf_lt_iff : absSf a < absSf b ↔ magnitude a < magnitude b := by
  rw [BitVec.lt_def, absSf_toNat, absSf_toNat, magnitude_lt_iff]

/-- The kinds of number in the order of the words without their signs. -/
theorem low_le_iff :
    magnitude b ≤ magnitude a ↔ expOf b * 2 ^ F.mantSize + (mantOf b).toNat ≤
      expOf a * 2 ^ F.mantSize + (mantOf a).toNat := by
  rw [fields_low, fields_low, ← not_lt, ← not_lt, magnitude_lt_iff]

theorem exp_le_of_magnitude (h : magnitude b ≤ magnitude a) : expOf b ≤ expOf a := by
  have hlow := low_le_iff.mp h
  have hmant := mantOf_lt a
  by_contra hlt
  have hmul : (expOf a + 1) * 2 ^ F.mantSize ≤ expOf b * 2 ^ F.mantSize :=
    Nat.mul_le_mul_right _ (not_le.mp hlt)
  rw [Nat.add_mul, Nat.one_mul] at hmul
  omega

theorem nan_of_magnitude (h : magnitude b ≤ magnitude a) (hb : IsNan b) : IsNan a := by
  have hle := exp_le_of_magnitude h
  have hmax := expOf_le a
  have hexp : expOf a = F.expMask := by
    rw [hb.1] at hle
    omega
  refine ⟨hexp, fun hzero => hb.2 ?_⟩
  have hlow := low_le_iff.mp h
  rw [hb.1, hexp, hzero, zero_toNat] at hlow
  exact toNat_eq_zero_iff.mp (by omega)

theorem finite_of_magnitude (h : magnitude b ≤ magnitude a) (ha : IsFinite a) : IsFinite b := by
  have hle := exp_le_of_magnitude h
  have hmax := expOf_le a
  have hlt : expOf a < F.expMask := lt_of_le_of_ne hmax ha
  rw [IsFinite]
  omega

theorem scale_le_of_magnitude (h : magnitude b ≤ magnitude a) : scale b ≤ scale a :=
  max_le_max (exp_le_of_magnitude h) le_rfl

/-! ## The quiet bit -/

theorem mant_shift_toNat (a : F.Word) : (mantOf a <<< 3).toNat = (mantOf a).toNat * 2 ^ 3 := by
  have hsize := F.fSize_rnd
  have hge := F.rndSize_ge
  apply shiftLeft_toNat
  calc (mantOf a).toNat * 2 ^ 3 < 2 ^ F.mantSize * 2 ^ 3 :=
        Nat.mul_lt_mul_of_pos_right (mantOf_lt a) (by decide)
    _ ≤ 2 ^ F.fSize := by
        rw [← pow_add]
        exact Nat.pow_le_pow_right (by decide) (by omega)

theorem mant_shift_eq_zero : mantOf a <<< 3 = 0 ↔ mantOf a = 0 := by
  rw [← toNat_eq_zero_iff, mant_shift_toNat, ← toNat_eq_zero_iff]
  omega

theorem quiet_bit_iff : mantOf a <<< 3 &&& F.qnanMask <<< 3 = 0 ↔
    (mantOf a).toNat < 2 ^ (F.mantSize - 1) := by
  have hsize := F.fSize_rnd
  have hge := F.mantSize_ge
  have hrnd := F.rndSize_ge
  have hmant := mantOf_lt a
  have hhalf := mant_half (F := F)
  have hquiet : (F.qnanMask <<< 3).toNat = 2 ^ (F.mantSize + 2) := by
    have hbit : F.qnanMask.toNat = 2 ^ (F.mantSize - 1) := bit_toNat (by omega)
    have hexp : 2 ^ (F.mantSize - 1) * 2 ^ 3 = 2 ^ (F.mantSize + 2) := by
      rw [← pow_add]
      congr 1
      omega
    rw [shiftLeft_toNat, hbit, hexp]
    rw [hbit, hexp]
    exact Nat.pow_lt_pow_right (by decide) (by omega)
  have hpow : 2 ^ (F.mantSize + 2) = 2 ^ (F.mantSize - 1) * 2 ^ 3 := by
    rw [← pow_add]
    congr 1
    omega
  have hbit : ((mantOf a).toNat * 2 ^ 3).testBit (F.mantSize + 2) =
      decide (2 ^ (F.mantSize - 1) ≤ (mantOf a).toNat) := by
    rw [Nat.testBit_eq_decide_div_mod_eq, hpow, Nat.mul_div_mul_right _ _ (by decide)]
    congr 1
    apply propext
    by_cases hle : 2 ^ (F.mantSize - 1) ≤ (mantOf a).toNat
    · have hone : (mantOf a).toNat / 2 ^ (F.mantSize - 1) = 1 :=
        Nat.div_eq_of_lt_le (by omega) (by omega)
      rw [hone]
      exact iff_of_true rfl hle
    · rw [Nat.div_eq_of_lt (not_le.mp hle)]
      exact iff_of_false (by decide) hle
  rw [← toNat_eq_zero_iff, BitVec.toNat_and, mant_shift_toNat, hquiet, Nat.and_two_pow, hbit,
    Nat.mul_eq_zero, Bool.toNat_eq_zero, decide_eq_false_iff_not, not_le]
  exact or_iff_left (Nat.two_pow_pos _).ne'

/-! ## The aligned mantissas -/

/-- The mantissa that `add_sf` works with. -/
def addMant (a : F.Word) : F.Word :=
  if expOf a = 0 then mantOf a <<< 3 else mantOf a <<< 3 ||| F.bit (F.mantSize + 3)

theorem addMant_toNat (a : F.Word) : (addMant a).toNat = significand a * 8 := by
  have hsize := F.fSize_rnd
  have hge := F.rndSize_ge
  have hmant := mant_shift_toNat a
  have hlt := mantOf_lt a
  have hpow : 2 ^ (F.mantSize + 3) = 2 ^ F.mantSize * 2 ^ 3 := pow_add _ _ _
  unfold addMant significand
  split
  · exact hmant
  · rw [or_leading_toNat (by omega) (by omega), hmant, hpow]
    ring

theorem scale_eq (a : F.Word) : (if expOf a = 0 then 1 else expOf a) = scale a := by
  unfold scale
  split <;> omega

theorem addMant_lt (a : F.Word) : (addMant a).toNat < 2 ^ (F.mantSize + 4) := by
  have hlt := significand_lt a
  have hpow : 2 ^ (F.mantSize + 4) = 2 ^ (F.mantSize + 1) * 8 := by
    exact pow_add 2 (F.mantSize + 1) 3
  rw [addMant_toNat, hpow]
  omega

/-- The exact aligned mantissa of the smaller operand. -/
noncomputable def aligned (b : F.Word) (d : ℕ) : ℝ := (significand b * 8 : ℕ) / 2 ^ d

theorem aligned_nonneg (b : F.Word) (d : ℕ) : 0 ≤ aligned b d :=
  div_nonneg (Nat.cast_nonneg _) (pow_pos two_pos d).le

theorem shifted_alike (b : F.Word) (d : ℕ) :
    Alike 2 ((rshiftRnd (addMant b) d).toNat : ℝ) (aligned b d) := by
  have h := sticky_shift_alike (K := ℝ) (addMant b).toNat d
  rwa [← rshiftRnd_toNat, addMant_toNat] at h

theorem shifted_lt (b : F.Word) (d : ℕ) :
    (rshiftRnd (addMant b) d).toNat < 2 ^ (F.mantSize + 4) := by
  rw [rshiftRnd_toNat]
  exact sticky_le_half (lt_of_le_of_lt (Nat.div_le_self _ _) (addMant_lt b))

/-- A shift by one bit is exact. -/
theorem shifted_exact {d : ℕ} (hd : d ≤ 1) :
    ((rshiftRnd (addMant b) d).toNat : ℝ) = aligned b d := by
  have hmod : (significand b * 8) % 2 ^ d = 0 := by
    obtain rfl | rfl : d = 0 ∨ d = 1 := by omega
    · rw [pow_zero, Nat.mod_one]
    · omega
  have hdiv := Nat.div_add_mod' (significand b * 8) (2 ^ d)
  rw [hmod, Nat.add_zero] at hdiv
  have hword : (rshiftRnd (addMant b) d).toNat = significand b * 8 / 2 ^ d := by
    rw [rshiftRnd_toNat, addMant_toNat, hmod]
    rfl
  rw [hword, aligned, eq_div_iff (pow_pos two_pos d).ne']
  exact_mod_cast hdiv

theorem scaled_aligned {e : ℤ} (b : F.Word) (d : ℕ) (he : e = scale b + d) :
    scaled F (e + (F.rndSize - 3 : ℕ)) (aligned b d) = magnitude b := by
  have hge := F.rndSize_ge
  have himant := imantSize_eq (F := F)
  have height : (8 : ℝ) = 2 ^ (3 : ℤ) := by norm_num
  rw [scaled, aligned, magnitude, div_eq_mul_inv, ← zpow_natCast, ← zpow_neg]
  push_cast
  rw [height, mul_assoc, mul_assoc, ← two_zpow_add, ← two_zpow_add]
  congr 2
  rw [himant, he]
  omega

theorem scaled_add (e : ℤ) (x y : ℝ) : scaled F e (x + y) = scaled F e x + scaled F e y :=
  add_mul _ _ _

theorem scaled_sub (e : ℤ) (x y : ℝ) : scaled F e (x - y) = scaled F e x - scaled F e y :=
  sub_mul _ _ _

/-! ## The sum of two finite numbers -/

theorem addFinite_eq (a b : F.Word) (rm : RoundingMode) (fflags : BitVec 32) :
    addFinite a b rm fflags =
      let bMant := rshiftRnd (addMant b) (scale a - scale b)
      let exp : ℤ := scale a + (F.rndSize - 3 : ℕ)
      if signOf a = signOf b then normalizeSf F (signOf a) exp (addMant a + bMant) rm fflags
      else
        normalizeSf F (if addMant a - bMant = 0 then decide (rm = .rdn) else signOf a) exp
          (addMant a - bMant) rm fflags := by
  unfold addFinite
  dsimp only
  simp only [scale_eq, ← addMant.eq_1]

/-- The mantissa of the greater operand on the grid of the sticky bit. -/
theorem addMant_multiple (a : F.Word) :
    ((addMant a).toNat : ℝ) = ((significand a * 4 : ℤ) : ℝ) * 2 := by
  rw [addMant_toNat]
  push_cast
  ring

theorem aligned_zero (a : F.Word) : aligned a 0 = (addMant a).toNat := by
  rw [aligned, pow_zero, div_one, addMant_toNat]

theorem two_pow_multiple (k : ℕ) : ((2 ^ (k + 1) : ℕ) : ℝ) = ((2 ^ k : ℤ) : ℝ) * 2 := by
  push_cast
  ring

variable {s : Bool}

/-- Adding the magnitudes. -/
theorem add_magnitudes (h : magnitude b ≤ magnitude a) :
    IsRounded F rm s (magnitude a + magnitude b) fflags
      (normalizeSf F s (scale a + (F.rndSize - 3 : ℕ))
        (addMant a + rshiftRnd (addMant b) (scale a - scale b)) rm fflags) := by
  have hscale := scale_le_of_magnitude h
  have hsize := F.fSize_rnd
  have hge := F.rndSize_ge
  have haLt := addMant_lt a
  have hbLt := shifted_lt b (scale a - scale b)
  have hroom : 2 ^ (F.mantSize + 4) + 2 ^ (F.mantSize + 4) ≤ 2 ^ (F.fSize - 1) := by
    rw [← two_mul, ← pow_succ']
    exact Nat.pow_le_pow_right (by decide) (by omega)
  have hfull := two_pow_half (F := F)
  have hsum : (addMant a + rshiftRnd (addMant b) (scale a - scale b)).toNat =
      (addMant a).toNat + (rshiftRnd (addMant b) (scale a - scale b)).toNat := by
    rw [BitVec.toNat_add]
    exact Nat.mod_eq_of_lt (by omega)
  have hexactA := scaled_aligned (e := scale a) a 0 (by simp)
  have hexactB := scaled_aligned (e := scale a) b (scale a - scale b) (by omega)
  rw [aligned_zero] at hexactA
  rw [← hexactA, ← hexactB, ← scaled_add]
  apply normalizeSf_sticky
  · rw [Small, hsum]
    omega
  · rw [hsum, Nat.cast_add]
    exact (shifted_alike b _).shift _ (addMant_multiple a)
  · by_cases hd : scale a - scale b ≤ 1
    · left
      rw [hsum, Nat.cast_add, shifted_exact hd]
    · right
      have hsig := significand_low (a := a) (by have := scale_ge b; omega)
      have hpow : 2 ^ (F.mantSize + 2) = 2 ^ F.mantSize * 4 := pow_add _ _ _
      rw [hsum, addMant_toNat, hpow]
      omega

theorem aligned_le (h : magnitude b ≤ magnitude a) :
    aligned b (scale a - scale b) ≤ (addMant a).toNat := by
  have hscale := scale_le_of_magnitude h
  have hexactA := scaled_aligned (e := scale a) a 0 (by simp)
  have hexactB := scaled_aligned (e := scale a) b (scale a - scale b) (by omega)
  rw [aligned_zero] at hexactA
  rw [← hexactA, ← hexactB] at h
  exact le_of_mul_le_mul_right h (two_zpow_pos _)

theorem aligned_eq_iff (h : magnitude b ≤ magnitude a) :
    aligned b (scale a - scale b) = (addMant a).toNat ↔ magnitude b = magnitude a := by
  have hscale := scale_le_of_magnitude h
  have hexactA := scaled_aligned (e := scale a) a 0 (by simp)
  have hexactB := scaled_aligned (e := scale a) b (scale a - scale b) (by omega)
  rw [aligned_zero] at hexactA
  rw [← hexactA, ← hexactB]
  exact (mul_left_inj' (two_zpow_pos _).ne').symm

/-- The operand that is more than one bit smaller takes at most half away. -/
theorem aligned_small (h : 2 ≤ scale a - scale b) :
    aligned b (scale a - scale b) ≤ 2 ^ (F.mantSize + 2) := by
  have hlt := significand_lt b
  have hpow : 2 ^ (F.mantSize + 2) * 2 ^ 2 = 2 ^ (F.mantSize + 1) * 8 := by
    rw [pow_add, pow_add]
    ring
  rw [aligned, div_le_iff₀ (pow_pos two_pos _)]
  calc ((significand b * 8 : ℕ) : ℝ) ≤ ((2 ^ (F.mantSize + 2) * 2 ^ 2 : ℕ) : ℝ) := by
        exact_mod_cast (by rw [hpow]; omega : significand b * 8 ≤ 2 ^ (F.mantSize + 2) * 2 ^ 2)
    _ = 2 ^ (F.mantSize + 2) * 2 ^ 2 := by
        push_cast
        norm_num
    _ ≤ 2 ^ (F.mantSize + 2) * 2 ^ (scale a - scale b) := by
        apply mul_le_mul_of_nonneg_left _ (pow_pos two_pos _).le
        exact pow_le_pow_right₀ one_le_two h

variable (rm fflags s) in
/-- Subtracting the magnitudes. -/
theorem sub_magnitudes (h : magnitude b ≤ magnitude a) :
    IsRounded F rm s (magnitude a - magnitude b) fflags
      (normalizeSf F s (scale a + (F.rndSize - 3 : ℕ))
        (addMant a - rshiftRnd (addMant b) (scale a - scale b)) rm fflags) ∧
      (addMant a - rshiftRnd (addMant b) (scale a - scale b) = 0 ↔
        magnitude a = magnitude b) := by
  have hscale := scale_le_of_magnitude h
  have hsize := F.fSize_rnd
  have hge := F.rndSize_ge
  have haLt := addMant_lt a
  have halike := shifted_alike b (scale a - scale b)
  have hle : (rshiftRnd (addMant b) (scale a - scale b)).toNat ≤ (addMant a).toNat := by
    have hreal := (halike.ge_iff _ (addMant_multiple a)).mpr (aligned_le h)
    exact_mod_cast hreal
  have hword : (addMant a - rshiftRnd (addMant b) (scale a - scale b)).toNat =
      (addMant a).toNat - (rshiftRnd (addMant b) (scale a - scale b)).toNat :=
    BitVec.toNat_sub_of_le (BitVec.le_def.mpr hle)
  have hexactA := scaled_aligned (e := scale a) a 0 (by simp)
  have hexactB := scaled_aligned (e := scale a) b (scale a - scale b) (by omega)
  rw [aligned_zero] at hexactA
  have hdiff : Alike 2 ((addMant a - rshiftRnd (addMant b) (scale a - scale b)).toNat : ℝ)
      ((addMant a).toNat - aligned b (scale a - scale b)) := by
    rw [hword, Nat.cast_sub hle]
    exact halike.neg.shift _ (addMant_multiple a)
  constructor
  · rw [← hexactA, ← hexactB, ← scaled_sub]
    apply normalizeSf_sticky
    · rw [Small, hword]
      have hpow : 2 ^ (F.mantSize + 4) ≤ 2 ^ (F.fSize - 1) :=
        Nat.pow_le_pow_right (by decide) (by omega)
      omega
    · exact hdiff
    · by_cases hd : scale a - scale b ≤ 1
      · left
        rw [hword, Nat.cast_sub hle, shifted_exact hd]
      · right
        have hsmall := aligned_small (a := a) (b := b) (by omega)
        have hsig := significand_low (a := a) (by have := scale_ge b; omega)
        have hlow : (2 : ℝ) ^ (F.mantSize + 2) ≤
            (addMant a).toNat - aligned b (scale a - scale b) := by
          have hpow : (2 : ℝ) ^ (F.mantSize + 2) + 2 ^ (F.mantSize + 2) ≤ (addMant a).toNat := by
            rw [addMant_toNat]
            have hnat : 2 ^ (F.mantSize + 2) + 2 ^ (F.mantSize + 2) ≤ significand a * 8 := by
              rw [pow_add]
              omega
            exact_mod_cast hnat
          linarith
        have hgrid := two_pow_multiple (F.mantSize + 1)
        rw [← Nat.cast_le (α := ℝ), hdiff.le_iff _ hgrid]
        exact_mod_cast hlow
  · rw [← toNat_eq_zero_iff, hword, Nat.sub_eq_zero_iff_le, eq_comm (a := magnitude a),
      ← aligned_eq_iff h]
    constructor
    · intro hge
      have heq : ((rshiftRnd (addMant b) (scale a - scale b)).toNat : ℝ) = (addMant a).toNat := by
        exact_mod_cast le_antisymm hle hge
      exact (halike.eq_iff _ (addMant_multiple a)).mp heq
    · intro heq
      have hreal := (halike.eq_iff _ (addMant_multiple a)).mpr heq
      exact (Nat.cast_inj.mp hreal).ge

open Classical in
/-- The sign of a sum of two terms of signs `s` and `t`. -/
noncomputable def sumSign (rm : RoundingMode) (s t : Bool) (x : ℝ) : Bool :=
  if x = 0 then if s = t then s else decide (rm = .rdn) else decide (x < 0)

theorem sumSign_comm (rm : RoundingMode) (s t : Bool) (x : ℝ) :
    sumSign rm s t x = sumSign rm t s x := by
  unfold sumSign
  split
  · by_cases h : s = t
    · rw [h]
    · rw [if_neg h, if_neg (Ne.symm h)]
  · rfl

/-- The sum with the signs of two terms as a number with a sign. -/
def signed (s : Bool) (x : ℝ) : ℝ := if s then -x else x

theorem value_eq (a : F.Word) : value a = signed (signOf a) (magnitude a) := rfl

variable (rm) in
theorem signed_same {x y : ℝ} {t : Bool} (hx : 0 ≤ x) (hy : 0 ≤ y) (hst : s = t) :
    |signed s x + signed t y| = x + y ∧ sumSign rm s t (signed s x + signed t y) = s := by
  subst hst
  unfold sumSign
  rw [if_pos rfl]
  cases s with
  | false =>
    have hsum : signed false x + signed false y = x + y := rfl
    rw [hsum, abs_of_nonneg (by linarith), decide_eq_false (by linarith), ite_self]
    exact ⟨rfl, rfl⟩
  | true =>
    have hsum : signed true x + signed true y = -(x + y) := by
      unfold signed
      rw [if_pos rfl, if_pos rfl]
      ring
    rw [hsum, abs_neg, abs_of_nonneg (by linarith)]
    refine ⟨rfl, ?_⟩
    split
    · rfl
    · next hne => exact decide_eq_true (lt_of_le_of_ne (by linarith) hne)

open Classical in
variable (rm) in
theorem signed_diff {x y : ℝ} {t : Bool} (hle : y ≤ x) (hst : s ≠ t) :
    |signed s x + signed t y| = x - y ∧
      sumSign rm s t (signed s x + signed t y) = if x = y then decide (rm = .rdn) else s := by
  have hneg : t = !s := by cases s <;> cases t <;> simp_all
  subst hneg
  unfold sumSign
  rw [if_neg hst]
  cases s with
  | false =>
    have hsum : signed false x + signed (!false) y = x - y := rfl
    rw [hsum, abs_of_nonneg (by linarith), decide_eq_false (p := x - y < 0) (by linarith)]
    simp only [sub_eq_zero]
    exact ⟨trivial, trivial⟩
  | true =>
    have hsum : signed true x + signed (!true) y = -(x - y) := by
      unfold signed
      rw [if_pos rfl, if_neg (by decide)]
      ring
    rw [hsum, abs_neg, abs_of_nonneg (by linarith)]
    simp only [neg_eq_zero, sub_eq_zero]
    refine ⟨trivial, ?_⟩
    split
    · rfl
    · next hne =>
        have hlt : y < x := lt_of_le_of_ne hle (Ne.symm hne)
        exact decide_eq_true (by linarith)

theorem addFinite_isRounded (h : magnitude b ≤ magnitude a) :
    IsRounded F rm (sumSign rm (signOf a) (signOf b) (value a + value b)) |value a + value b| fflags
      (addFinite a b rm fflags) := by
  rw [addFinite_eq, value_eq, value_eq]
  dsimp only
  by_cases hsign : signOf a = signOf b
  · obtain ⟨habs, hsum⟩ := signed_same rm (magnitude_nonneg a) (magnitude_nonneg b) hsign
    rw [if_pos hsign, habs, hsum]
    exact add_magnitudes h
  · obtain ⟨habs, hsum⟩ := signed_diff rm h hsign
    obtain ⟨hround, hzero⟩ := sub_magnitudes rm fflags
      (if magnitude a = magnitude b then decide (rm = .rdn) else signOf a) h
    rw [if_neg hsign, habs, hsum]
    simp only [hzero]
    exact hround

/-- What the standard asks of a sum. -/
structure IsSum (rm : RoundingMode) (a b : F.Word) (fflags : BitVec 32) (r : F.Result) : Prop where
  nan : IsNan a ∨ IsNan b → r = nanResult F (decide (IsSignaling a ∨ IsSignaling b)) fflags
  invalid : IsInfinite a → IsInfinite b → signOf a ≠ signOf b → r = invalidResult F fflags
  infinite : IsInfinite a ∧ (IsFinite b ∨ b = a) → r = (a, fflags)
  infinite' : IsInfinite b ∧ (IsFinite a ∨ a = b) → r = (b, fflags)
  finite : IsFinite a → IsFinite b →
    IsRounded F rm (sumSign rm (signOf a) (signOf b) (value a + value b)) |value a + value b| fflags r

theorem IsSum.comm {r : F.Result} (h : IsSum rm a b fflags r) : IsSum rm b a fflags r where
  nan := by
    intro hnan
    rw [h.nan hnan.symm]
    simp only [or_comm]
  invalid := fun hb ha hne => h.invalid ha hb hne.symm
  infinite := h.infinite'
  infinite' := h.infinite
  finite := by
    intro hb ha
    rw [sumSign_comm, add_comm]
    exact h.finite ha hb

theorem addOrdered_nan (hnan : IsNan a) :
    addOrdered a b rm fflags = nanResult F (decide (IsSignaling a ∨ IsSignaling b)) fflags := by
  have hquiet : (mantOf a <<< 3 &&& F.qnanMask <<< 3 = 0 ∨ issignanSf b = true) ↔
      IsSignaling a ∨ IsSignaling b := by
    have ha : IsSignaling a ↔ (mantOf a).toNat < 2 ^ (F.mantSize - 1) := and_iff_right hnan
    rw [quiet_bit_iff, issignanSf_iff, ha]
  unfold addOrdered
  rw [if_pos hnan.1, if_pos (fun hzero => hnan.2 (mant_shift_eq_zero.mp hzero)),
    ← nanResult_eq hquiet]
  split <;> rfl

theorem addOrdered_isSum (h : magnitude b ≤ magnitude a) :
    IsSum rm a b fflags (addOrdered a b rm fflags) where
  nan := by
    intro hnan
    exact addOrdered_nan (hnan.elim id (nan_of_magnitude h))
  invalid := by
    intro ha hb hne
    unfold addOrdered
    rw [if_pos ha.1, if_neg (not_not.mpr (mant_shift_eq_zero.mpr ha.2)), if_pos ⟨hb.1, hne⟩]
    rfl
  infinite := by
    rintro ⟨ha, hb⟩
    have hsame : ¬ (expOf b = F.expMask ∧ signOf a ≠ signOf b) := by
      rintro ⟨hexp, hne⟩
      obtain hfinite | rfl := hb
      · exact hfinite hexp
      · exact hne rfl
    unfold addOrdered
    rw [if_pos ha.1, if_neg (not_not.mpr (mant_shift_eq_zero.mpr ha.2)), if_neg hsame]
  infinite' := by
    rintro ⟨hb, ha⟩
    obtain hfinite | rfl := ha
    · exact absurd (finite_of_magnitude h hfinite) (not_isFinite.mpr hb.1)
    · have hsame : ¬ (expOf a = F.expMask ∧ signOf a ≠ signOf a) := fun hne => hne.2 rfl
      unfold addOrdered
      rw [if_pos hb.1, if_neg (not_not.mpr (mant_shift_eq_zero.mpr hb.2)), if_neg hsame]
  finite := by
    intro ha _
    unfold addOrdered
    rw [if_neg ha]
    exact addFinite_isRounded h

theorem addSf_isSum (a b : F.Word) (rm : RoundingMode) (fflags : BitVec 32) :
    IsSum rm a b fflags (addSf a b rm fflags) := by
  unfold addSf
  split
  case isTrue h => exact (addOrdered_isSum (absSf_lt_iff.mp h).le).comm
  case isFalse h => exact addOrdered_isSum (not_lt.mp (fun hlt => h (absSf_lt_iff.mpr hlt)))

/-! ## Differences -/

theorem flip_low (a : F.Word) :
    (a ^^^ F.signMask).toNat % 2 ^ (F.fSize - 1) = a.toNat % 2 ^ (F.fSize - 1) := by
  have hsize := F.fSize_eq
  rw [BitVec.toNat_xor, signMask, bit_toNat (by omega), Nat.xor_mod_two_pow, Nat.mod_self]
  exact Nat.xor_zero _

theorem signOf_flip (a : F.Word) : signOf (a ^^^ F.signMask) = !signOf a := by
  have hsize := F.fSize_eq
  have hflip : (signOf (a ^^^ F.signMask)).toNat = (signOf a).toNat ^^^ 1 := by
    rw [signOf_toNat, signOf_toNat, BitVec.toNat_xor, signMask, bit_toNat (by omega),
      Nat.xor_div_two_pow, Nat.div_self (Nat.two_pow_pos _)]
  generalize signOf (a ^^^ F.signMask) = flipped at hflip
  cases ha : signOf a <;> cases flipped <;> simp [ha] at hflip ⊢

theorem flip_fields (a : F.Word) :
    expOf (a ^^^ F.signMask) = expOf a ∧ mantOf (a ^^^ F.signMask) = mantOf a := by
  have hlow := flip_low a
  rw [← fields_low, ← fields_low] at hlow
  obtain ⟨hexp, hmant⟩ := fields_unique (mantOf_lt _) (mantOf_lt a) hlow
  exact ⟨hexp, BitVec.eq_of_toNat_eq hmant⟩

theorem magnitude_flip (a : F.Word) : magnitude (a ^^^ F.signMask) = magnitude a :=
  magnitude_eq_iff.mpr (flip_low a)

theorem value_flip (a : F.Word) : value (a ^^^ F.signMask) = -value a := by
  rw [value_eq, value_eq, signOf_flip, magnitude_flip]
  cases signOf a <;> simp [signed]

theorem finite_flip : IsFinite (a ^^^ F.signMask) ↔ IsFinite a := by
  rw [IsFinite, IsFinite, (flip_fields a).1]

theorem infinite_flip : IsInfinite (a ^^^ F.signMask) ↔ IsInfinite a := by
  rw [IsInfinite, IsInfinite, (flip_fields a).1, (flip_fields a).2]

theorem nan_flip : IsNan (a ^^^ F.signMask) ↔ IsNan a := by
  rw [IsNan, IsNan, (flip_fields a).1, (flip_fields a).2]

theorem signaling_flip : IsSignaling (a ^^^ F.signMask) ↔ IsSignaling a := by
  rw [IsSignaling, IsSignaling, nan_flip, (flip_fields a).2]

theorem zero_flip : IsZero (a ^^^ F.signMask) ↔ IsZero a := by
  rw [IsZero, IsZero, (flip_fields a).1, (flip_fields a).2]

theorem addSf_finite (ha : IsFinite a) (hb : IsFinite b) :
    IsRounded F rm (sumSign rm (signOf a) (signOf b) (value a + value b)) |value a + value b| fflags
      (addSf a b rm fflags) := (addSf_isSum a b rm fflags).finite ha hb

theorem subSf_finite (ha : IsFinite a) (hb : IsFinite b) :
    IsRounded F rm (sumSign rm (signOf a) (!signOf b) (value a - value b)) |value a - value b|
      fflags (subSf a b rm fflags) := by
  have hsum := (addSf_isSum a (b ^^^ F.signMask) rm fflags).finite ha (finite_flip.mpr hb)
  rw [signOf_flip, value_flip, ← sub_eq_add_neg] at hsum
  exact hsum

/-- What the standard asks of a difference. -/
structure IsDifference (rm : RoundingMode) (a b : F.Word) (fflags : BitVec 32) (r : F.Result) :
    Prop where
  nan : IsNan a ∨ IsNan b → r = nanResult F (decide (IsSignaling a ∨ IsSignaling b)) fflags
  invalid : IsInfinite a → IsInfinite b → signOf a = signOf b → r = invalidResult F fflags
  minuend : IsInfinite a → IsFinite b ∨ IsInfinite b ∧ signOf a ≠ signOf b → r = (a, fflags)
  subtrahend : IsFinite a → IsInfinite b → r = (b ^^^ F.signMask, fflags)
  finite : IsFinite a → IsFinite b →
    IsRounded F rm (sumSign rm (signOf a) (!signOf b) (value a - value b)) |value a - value b|
      fflags r

theorem subSf_isDifference (a b : F.Word) (rm : RoundingMode) (fflags : BitVec 32) :
    IsDifference rm a b fflags (subSf a b rm fflags) := by
  have hsum := addSf_isSum a (b ^^^ F.signMask) rm fflags
  exact {
    nan := by
      intro h
      rw [subSf, hsum.nan (h.imp_right nan_flip.mpr)]
      simp only [signaling_flip]
    invalid := by
      intro ha hb heq
      apply hsum.invalid ha (infinite_flip.mpr hb)
      rw [signOf_flip, heq]
      exact (Bool.not_ne_self _).symm
    minuend := by
      rintro ha (hb | ⟨hb, hne⟩)
      · exact hsum.infinite ⟨ha, Or.inl (finite_flip.mpr hb)⟩
      · have hflip := infinite_flip.mpr hb
        refine hsum.infinite ⟨ha, Or.inr (word_ext ?_ ?_ ?_)⟩
        · rw [signOf_flip]
          exact (Bool.eq_not_of_ne hne).symm
        · rw [hflip.1, ha.1]
        · rw [hflip.2, ha.2]
    subtrahend := fun ha hb => hsum.infinite' ⟨infinite_flip.mpr hb, Or.inl ha⟩
    finite := subSf_finite }

/-- `add_sf` and `sub_sf` are correct for all operands, in all rounding modes. -/
theorem sum_and_difference (a b : F.Word) (rm : RoundingMode) (fflags : BitVec 32) :
    IsSum rm a b fflags (addSf a b rm fflags) ∧ IsDifference rm a b fflags (subSf a b rm fflags) :=
  ⟨addSf_isSum a b rm fflags, subSf_isDifference a b rm fflags⟩

end SoftFloat
end Riscbox

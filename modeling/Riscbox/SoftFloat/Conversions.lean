import Riscbox.SoftFloat.Sum

/-!
# Conversions between the formats
-/

namespace Riscbox
namespace SoftFloat

open Rounding Format

attribute [local instance] atLeastTwo

/-! ## The source's functions -/

/-- `cvt_sf32_sf` and `cvt_sf64_sf`, from the smaller format `G`. -/
def cvtWiden (G F : Format) (a : G.Word) (fflags : BitVec 32) : F.Result :=
  if expOf a = G.expMask then
    if mantOf a ≠ 0 then (F.qnan, if issignanSf a then fflags ||| fflagInvalidOp else fflags)
    else (packSf F (signOf a) F.expMask 0, fflags)
  else if expOf a = 0 ∧ mantOf a = 0 then (packSf F (signOf a) 0 0, fflags)
  else
    let (aExp, aMant) :=
      if expOf a = 0 then normalizeSubnormalSf (mantOf a) else ((expOf a : Int), mantOf a)
    -- The larger format has room for every exponent, so that nothing is rounded.
    (packSf F (signOf a) (aExp - G.expMask / 2 + F.expMask / 2)
      (aMant.setWidth F.fSize <<< (F.mantSize - G.mantSize)), fflags)

/-- `cvt_sf_sf32` and `cvt_sf_sf64`, from the larger format `F`.  Of a subnormal number only
the exponent is normalized. -/
def cvtNarrow (F G : Format) (a : F.Word) (rm : RoundingMode) (fflags : BitVec 32) : G.Result :=
  if expOf a = F.expMask then
    if mantOf a ≠ 0 then (G.qnan, if issignanSf a then fflags ||| fflagInvalidOp else fflags)
    else (packSf G (signOf a) G.expMask 0, fflags)
  else if expOf a = 0 ∧ mantOf a = 0 then (packSf G (signOf a) 0 0, fflags)
  else
    let (aExp, aMant) :=
      if expOf a = 0 then ((normalizeSubnormalSf (mantOf a)).1, mantOf a)
      else ((expOf a : Int), mantOf a ||| F.bit F.mantSize)
    let aMant := rshiftRnd aMant (F.mantSize - (G.fSize - 2))
    normalizeSf G (signOf a) (aExp - F.expMask / 2 + G.expMask / 2) (aMant.setWidth G.fSize) rm
      fflags

/-- `cvt_sf32_sf64`. -/
def cvtSf32Sf64 (a : sf32.Word) (fflags : BitVec 32) : sf64.Result := cvtWiden sf32 sf64 a fflags

/-- `cvt_sf64_sf32`. -/
def cvtSf64Sf32 (a : sf64.Word) (rm : RoundingMode) (fflags : BitVec 32) : sf32.Result :=
  cvtNarrow sf64 sf32 a rm fflags

/-! ## To the larger format -/

/-- The formats that a conversion relates: all numbers of the smaller one are normal numbers
of the larger one. -/
structure Widens (G F : Format) : Prop where
  mant : G.imantSize ≤ F.mantSize
  bias : G.bias + G.mantSize + 1 ≤ F.bias

theorem widens_sf32_sf64 : Widens sf32 sf64 := ⟨by decide, by decide⟩

theorem widens_sf32_sf128 : Widens sf32 sf128 := ⟨by decide, by decide⟩

theorem widens_sf64_sf128 : Widens sf64 sf128 := ⟨by decide, by decide⟩

variable {F G : Format} {rm : RoundingMode} {fflags : BitVec 32}

/-- The exponent of a number with its leading bit in place. -/
theorem unpackNormal_exp (a : G.Word) (ha : IsFinite a) :
    1 - (G.mantSize : ℤ) ≤ (unpackNormal a).1 ∧ (unpackNormal a).1 ≤ 2 * G.bias := by
  have hbias := G.bias_ge
  have hmask := G.expMask_eq
  have hle := expOf_le a
  unfold unpackNormal
  split
  · unfold normalizeSubnormalSf
    dsimp only
    omega
  · unfold IsFinite at ha
    dsimp only
    omega

/-- The packed mantissa is that of the number without its leading bit. -/
theorem widened_mant (h : Widens G F) (n : G.Word) :
    (n.setWidth F.fSize <<< (F.mantSize - G.mantSize)).toNat % 2 ^ F.mantSize =
      n.toNat % 2 ^ G.mantSize * 2 ^ (F.mantSize - G.mantSize) := by
  have hle := h.mant
  have himant := imantSize_eq (F := G)
  have hsizeG := G.fSize_rnd
  have hsizeF := F.fSize_rnd
  have hfit : n.toNat < 2 ^ F.fSize := n.isLt.trans_le (Nat.pow_le_pow_right (by decide) (by omega))
  have hdvd : 2 ^ F.mantSize ∣ 2 ^ F.fSize := pow_dvd_pow 2 (by omega)
  have hsplit : 2 ^ F.mantSize = 2 ^ G.mantSize * 2 ^ (F.mantSize - G.mantSize) := by
    rw [← pow_add]
    congr 1
    omega
  rw [BitVec.toNat_shiftLeft, BitVec.toNat_setWidth, Nat.mod_eq_of_lt hfit, Nat.shiftLeft_eq,
    Nat.mod_mod_of_dvd _ hdvd, hsplit, Nat.mul_mod_mul_right]

/-- What is asked of a conversion to the larger format: it is exact. -/
structure IsWidened (a : G.Word) (fflags : BitVec 32) (r : F.Result) : Prop where
  nan : IsNan a → r = nanResult F (decide (IsSignaling a)) fflags
  infinite : IsInfinite a → r = (infinity F (signOf a), fflags)
  finite : IsFinite a →
    IsFinite r.1 ∧ signOf r.1 = signOf a ∧ magnitude r.1 = magnitude a ∧ r.2 = fflags

/-- A number packed from its exponent and its leading bit. -/
theorem packed_magnitude {s : Bool} {e : ℤ} {m : F.Word} (hlow : 1 ≤ e) (hhigh : e < F.expMask) :
    IsFinite (packSf F s e m) ∧ signOf (packSf F s e m) = s ∧ magnitude (packSf F s e m) =
      (2 ^ F.mantSize + m.toNat % 2 ^ F.mantSize : ℕ) * 2 ^ (e - F.bias - F.mantSize) := by
  obtain ⟨k, hk⟩ := Int.eq_ofNat_of_zero_le (show 0 ≤ e by omega)
  have hle : k ≤ F.expMask := by omega
  obtain ⟨hexp, hmant⟩ := packSf_fields (s := s) hle m
  rw [hk]
  refine ⟨?_, signOf_packSf hle m, ?_⟩
  · rw [IsFinite]
    exact ne_of_eq_of_ne hexp (by omega)
  · have hscale : scale (packSf F s k m) = k := by
      rw [scale, hexp]
      omega
    have hsig : significand (packSf F s k m) = 2 ^ F.mantSize + m.toNat % 2 ^ F.mantSize := by
      rw [significand, if_neg (by rw [hexp]; omega), hmant]
    rw [magnitude, hscale, hsig]

variable (F fflags) in
theorem cvtWiden_finite {a : G.Word} (ha : IsFinite a) (hzero : ¬ IsZero a) :
    ∃ n : G.Word, cvtWiden G F a fflags =
        (packSf F (signOf a) ((unpackNormal a).1 - G.bias + F.bias)
          (n.setWidth F.fSize <<< (F.mantSize - G.mantSize)), fflags) ∧
      n.toNat % 2 ^ G.mantSize + 2 ^ G.mantSize = (unpackNormal a).2.toNat := by
  have hunpacked := unpackNormal_unpacked hzero
  have hmod : ∀ m : G.Word, 2 ^ G.mantSize ≤ m.toNat → m.toNat < 2 ^ (G.mantSize + 1) →
      m.toNat % 2 ^ G.mantSize + 2 ^ G.mantSize = m.toNat := by
    intro m hlow hhigh
    rw [pow_succ'] at hhigh
    rw [Nat.mod_eq_sub_mod hlow, Nat.mod_eq_of_lt (by omega)]
    omega
  unfold cvtWiden
  rw [if_neg ha]
  simp only [← isZero_iff]
  rw [if_neg hzero]
  by_cases hexp : expOf a = 0
  · have hunpack : unpackNormal a = normalizeSubnormalSf (mantOf a) := if_pos hexp
    rw [hunpack] at hunpacked ⊢
    rw [if_pos hexp]
    exact ⟨_, rfl, hmod _ hunpacked.low hunpacked.high⟩
  · have hunpack : unpackNormal a = ((expOf a : ℤ), mantOf a ||| G.bit G.mantSize) := if_neg hexp
    rw [hunpack, if_neg hexp]
    refine ⟨mantOf a, rfl, ?_⟩
    have hmant := mantOf_lt a
    have hsize := G.fSize_eq
    rw [Nat.mod_eq_of_lt hmant, or_leading_toNat hmant (by omega), Nat.add_comm]

theorem cvtWiden_isWidened (h : Widens G F) (a : G.Word) :
    IsWidened a fflags (cvtWiden G F a fflags) where
  nan := by
    intro hnan
    unfold cvtWiden
    rw [if_pos hnan.1, if_pos hnan.2]
    exact nanResult_eq issignanSf_iff
  infinite := by
    intro hinf
    unfold cvtWiden
    rw [if_pos hinf.1, if_neg (not_not.mpr hinf.2)]
    rfl
  finite := by
    intro ha
    by_cases hzero : IsZero a
    · have hpacked : cvtWiden G F a fflags = (packSf F (signOf a) 0 0, fflags) := by
        unfold cvtWiden
        rw [if_neg ha]
        exact if_pos hzero
      rw [hpacked]
      refine ⟨isFinite_packSf_zero _, signOf_packSf (Nat.zero_le _) _, ?_, rfl⟩
      exact magnitude_zero.trans (magnitude_eq_zero_iff.mpr hzero).symm
    · obtain ⟨n, hpacked, hn⟩ := cvtWiden_finite F fflags ha hzero
      obtain ⟨hlow, hhigh⟩ := unpackNormal_exp a ha
      have hbias := h.bias
      have hmask := F.expMask_eq
      obtain ⟨hfinite, hsign, hvalue⟩ := packed_magnitude (F := F) (s := signOf a)
        (e := (unpackNormal a).1 - G.bias + F.bias)
        (m := n.setWidth F.fSize <<< (F.mantSize - G.mantSize)) (by omega) (by omega)
      rw [hpacked]
      refine ⟨hfinite, hsign, ?_, rfl⟩
      have hmantLe := h.mant
      have himant := imantSize_eq (F := G)
      have hexp : (unpackNormal a).1 - G.bias - G.mantSize =
          ((F.mantSize - G.mantSize : ℕ) : ℤ) +
            ((unpackNormal a).1 - G.bias + F.bias - F.bias - F.mantSize) := by omega
      have hsplit : 2 ^ F.mantSize = 2 ^ G.mantSize * 2 ^ (F.mantSize - G.mantSize) := by
        rw [← pow_add]
        congr 1
        omega
      rw [hvalue, (unpackNormal_unpacked hzero).value, widened_mant h, hexp, two_zpow_add,
        zpow_natCast, ← hn, hsplit]
      push_cast
      ring

/-! ## To the smaller format -/

/-- What is asked of a conversion to the smaller format: it is correctly rounded. -/
structure IsNarrowed (rm : RoundingMode) (a : F.Word) (fflags : BitVec 32) (r : G.Result) :
    Prop where
  nan : IsNan a → r = nanResult G (decide (IsSignaling a)) fflags
  infinite : IsInfinite a → r = (infinity G (signOf a), fflags)
  finite : IsFinite a → IsRounded G rm (signOf a) (magnitude a) fflags r

/-- The mantissa that is left of the larger one, with a sticky last bit. -/
theorem narrowed_mant (h : Widens G F) {m : F.Word} {k : ℕ} (hm : m.toNat < 2 ^ (k + 1))
    (hk : k ≤ F.mantSize) (hd : F.mantSize - (G.fSize - 2) ≤ k) :
    ((rshiftRnd m (F.mantSize - (G.fSize - 2))).setWidth G.fSize).toNat =
        sticky (m.toNat / 2 ^ (F.mantSize - (G.fSize - 2)))
          (m.toNat % 2 ^ (F.mantSize - (G.fSize - 2)) != 0) ∧
      sticky (m.toNat / 2 ^ (F.mantSize - (G.fSize - 2)))
          (m.toNat % 2 ^ (F.mantSize - (G.fSize - 2)) != 0) <
        2 ^ (k - (F.mantSize - (G.fSize - 2)) + 1) := by
  have hle := h.mant
  have himant : G.imantSize = G.fSize - 2 := rfl
  have hsize := G.fSize_rnd
  obtain ⟨d, hd'⟩ : ∃ d, F.mantSize - (G.fSize - 2) = d := ⟨_, rfl⟩
  rw [hd'] at hd ⊢
  have hlt : sticky (m.toNat / 2 ^ d) (m.toNat % 2 ^ d != 0) < 2 ^ (k - d + 1) := by
    apply sticky_le_half
    rw [Nat.div_lt_iff_lt_mul (Nat.two_pow_pos d), ← pow_add]
    exact hm.trans_le (Nat.pow_le_pow_right (by decide) (by omega))
  refine ⟨?_, hlt⟩
  rw [BitVec.toNat_setWidth, rshiftRnd_toNat]
  exact Nat.mod_eq_of_lt (hlt.trans_le (Nat.pow_le_pow_right (by decide) (by omega)))

theorem scaled_narrowed (h : Widens G F) (e : ℤ) (n : ℕ) :
    scaled G (e - F.bias + G.bias) ((n : ℝ) / 2 ^ (F.mantSize - (G.fSize - 2))) =
      n * 2 ^ (e - F.bias - F.mantSize) := by
  have hle := h.mant
  have himant : G.imantSize = G.fSize - 2 := rfl
  have hexp : e - F.bias + G.bias - G.bias - G.imantSize =
      ((F.mantSize - (G.fSize - 2) : ℕ) : ℤ) + (e - F.bias - F.mantSize) := by omega
  have hpos := pow_pos (two_pos (α := ℝ)) (F.mantSize - (G.fSize - 2))
  rw [scaled, hexp, two_zpow_add, zpow_natCast]
  field_simp

/-- A normal number is rounded by the smaller format's packing. -/
theorem cvtNarrow_normal (h : Widens G F) {a : F.Word} (hexp : expOf a ≠ 0) :
    IsRounded G rm (signOf a) (magnitude a) fflags
      (normalizeSf G (signOf a) ((expOf a : ℤ) - F.bias + G.bias)
        ((rshiftRnd (mantOf a ||| F.bit F.mantSize) (F.mantSize - (G.fSize - 2))).setWidth G.fSize)
        rm fflags) := by
  have hle := h.mant
  have himant : G.imantSize = G.fSize - 2 := rfl
  have hsizeG := G.fSize_rnd
  have hgeG := G.rndSize_ge
  have hsizeF := F.fSize_eq
  have hmant : (mantOf a ||| F.bit F.mantSize).toNat = significand a := by
    rw [or_leading_toNat (mantOf_lt a) (by omega), significand, if_neg hexp]
  have hscale : scale a = expOf a := by
    rw [scale]
    omega
  obtain ⟨hword, hlt⟩ := narrowed_mant h (hmant ▸ significand_lt a) le_rfl (by omega)
  have hexact := scaled_narrowed h (scale a) (significand a)
  rw [magnitude, ← hexact, ← hscale]
  apply normalizeSf_sticky
  · rw [Small, hword]
    exact hlt.trans_le (Nat.pow_le_pow_right (by decide) (by omega))
  · rw [hword, hmant]
    exact sticky_shift_alike _ _
  · right
    rw [hword, hmant]
    refine le_trans ?_ (le_sticky _ _)
    rw [Nat.le_div_iff_mul_le (Nat.two_pow_pos _), ← pow_add]
    exact (Nat.pow_le_pow_right (by decide) (by omega)).trans (significand_ge hexp)

/-- A sticky shift of a nonzero number, scaled to an exponent at or below the subnormal ones. -/
theorem scaled_sticky_minute {e : ℤ} {n k : ℕ} (hn : 0 < n)
    (hbound : sticky (n / 2 ^ k) (n % 2 ^ k != 0) < 2 ^ G.imantSize) :
    0 < scaled G e (sticky (n / 2 ^ k) (n % 2 ^ k != 0)) ∧
      scaled G e (sticky (n / 2 ^ k) (n % 2 ^ k != 0)) < 2 ^ (e - G.bias) := by
  constructor
  · have hquotient : (0 : ℝ) < n / 2 ^ k := div_pos (by exact_mod_cast hn) (pow_pos two_pos _)
    exact mul_pos ((sticky_shift_alike _ _).symm.pos hquotient) (two_zpow_pos _)
  · have hcast : (sticky (n / 2 ^ k) (n % 2 ^ k != 0) : ℝ) < 2 ^ G.imantSize := by
      exact_mod_cast hbound
    calc _ < 2 ^ G.imantSize * 2 ^ (e - G.bias - G.imantSize) :=
          mul_lt_mul_of_pos_right hcast (two_zpow_pos _)
      _ = 2 ^ (e - G.bias) := by
          rw [← zpow_natCast, ← two_zpow_add]
          congr 1
          ring

/-- A subnormal number is below half the least number of the smaller format, and so is what is
packed in its place. -/
theorem cvtNarrow_subnormal (h : Widens G F) {a : F.Word} (hexp : expOf a = 0)
    (hzero : ¬ IsZero a) :
    IsRounded G rm (signOf a) (magnitude a) fflags
      (normalizeSf G (signOf a) ((normalizeSubnormalSf (mantOf a)).1 - F.bias + G.bias)
        ((rshiftRnd (mantOf a) (F.mantSize - (G.fSize - 2))).setWidth G.fSize) rm fflags) := by
  have hle := h.mant
  have hbias := h.bias
  have himant : G.imantSize = G.fSize - 2 := rfl
  have hsizeG := G.fSize_rnd
  have hgeG := G.rndSize_ge
  have hge := F.mantSize_ge
  have hmant : mantOf a ≠ 0 := fun hm => hzero ⟨hexp, hm⟩
  have hlt : (mantOf a).toNat < 2 ^ (F.mantSize - 1 + 1) := by
    rw [Nat.sub_add_cancel (by omega)]
    exact mantOf_lt a
  obtain ⟨hword, hbound⟩ := narrowed_mant h hlt (by omega) (by omega)
  have hexpLe : (normalizeSubnormalSf (mantOf a)).1 ≤ 1 := by
    unfold normalizeSubnormalSf
    dsimp only
    omega
  generalize (normalizeSubnormalSf (mantOf a)).1 = e at hexpLe
  have hsmall : Small ((rshiftRnd (mantOf a) (F.mantSize - (G.fSize - 2))).setWidth G.fSize) := by
    rw [Small, hword]
    exact hbound.trans_le (Nat.pow_le_pow_right (by decide) (by omega))
  have hlimit : (2 : ℝ) ^ (1 - F.bias) ≤ 2 ^ (G.emin - G.mantSize - 1) := by
    apply zpow_le_zpow_right₀ one_le_two
    unfold emin
    omega
  have hround : IsRounded G rm (signOf a) _ fflags
      (normalizeSf G (signOf a) (e - F.bias + G.bias) _ rm fflags) := normalizeSf_isRounded hsmall
  apply hround.minute
  · have hpos : 0 < (mantOf a).toNat := Nat.pos_of_ne_zero (toNat_eq_zero_iff.not.mpr hmant)
    have hexpEq : F.mantSize - 1 - (F.mantSize - (G.fSize - 2)) + 1 = G.imantSize := by omega
    rw [hexpEq] at hbound
    rw [hword]
    obtain ⟨hpositive, hbelow⟩ := scaled_sticky_minute (e := e - F.bias + G.bias) hpos hbound
    refine ⟨hpositive, hbelow.trans_le (le_trans ?_ hlimit)⟩
    exact zpow_le_zpow_right₀ one_le_two (by omega)
  · constructor
    · exact (magnitude_nonneg a).lt_of_ne' (magnitude_eq_zero_iff.not.mpr hzero)
    · have hsub : magnitude a < 2 ^ F.emin := not_le.mp ((normal_iff a).not.mpr (not_not.mpr hexp))
      exact hsub.trans_le hlimit

/-- `cvt_sf_sf32` rounds once, though it does not normalize the mantissa of a subnormal number. -/
theorem cvtNarrow_isNarrowed (h : Widens G F) (a : F.Word) :
    IsNarrowed rm a fflags (cvtNarrow F G a rm fflags) where
  nan := by
    intro hnan
    unfold cvtNarrow
    rw [if_pos hnan.1, if_pos hnan.2]
    exact nanResult_eq issignanSf_iff
  infinite := by
    intro hinf
    unfold cvtNarrow
    rw [if_pos hinf.1, if_neg (not_not.mpr hinf.2)]
    rfl
  finite := by
    intro ha
    unfold cvtNarrow
    rw [if_neg ha]
    simp only [← isZero_iff]
    by_cases hzero : IsZero a
    · rw [if_pos hzero, magnitude_eq_zero_iff.mpr hzero]
      exact isRounded_zero
    · rw [if_neg hzero]
      by_cases hexp : expOf a = 0
      · rw [if_pos hexp]
        exact cvtNarrow_subnormal h hexp hzero
      · rw [if_neg hexp]
        exact cvtNarrow_normal h hexp

/-! ## There and back -/

theorem infinity_fields (s : Bool) : IsInfinite (infinity F s) ∧ signOf (infinity F s) = s := by
  obtain ⟨hexp, hmant⟩ := packSf_fields (s := s) (le_refl F.expMask) (0 : F.Word)
  exact ⟨⟨hexp, BitVec.eq_of_toNat_eq hmant⟩, signOf_packSf (le_refl _) _⟩

theorem IsInfinite.eq_infinity {a : F.Word} (h : IsInfinite a) : a = infinity F (signOf a) := by
  obtain ⟨hinf, hsign⟩ := infinity_fields (F := F) (signOf a)
  apply word_ext hsign.symm
  · rw [h.1, hinf.1]
  · rw [h.2, hinf.2]

/-- A number of the smaller format comes back from the larger one, whatever the rounding. -/
theorem cvtNarrow_cvtWiden (h : Widens G F) {a : G.Word} (hnan : ¬ IsNan a) (rm : RoundingMode)
    (fflags : BitVec 32) :
    cvtNarrow F G (cvtWiden G F a fflags).1 rm (cvtWiden G F a fflags).2 = (a, fflags) := by
  have hwide : IsWidened a fflags (cvtWiden G F a fflags) := cvtWiden_isWidened h a
  by_cases ha : IsFinite a
  · obtain ⟨hfinite, hsign, hmagnitude, hflags⟩ := hwide.finite ha
    have hnarrow : IsNarrowed rm (cvtWiden G F a fflags).1 fflags
        (cvtNarrow F G (cvtWiden G F a fflags).1 rm fflags) := cvtNarrow_isNarrowed h _
    have hback := hnarrow.finite hfinite
    rw [hsign, hmagnitude] at hback
    rw [hflags]
    exact hback.unique (isRounded_self ha)
  · have hinf := (infinite_or_nan (not_isFinite.mp ha)).resolve_right hnan
    obtain ⟨hinfinity, hsign⟩ := infinity_fields (F := F) (signOf a)
    rw [hwide.infinite hinf, (cvtNarrow_isNarrowed h (infinity F (signOf a))).infinite hinfinity,
      hsign, ← hinf.eq_infinity]

/-- The conversions between singles and doubles. -/
theorem float_conversions (a : sf32.Word) (b : sf64.Word) (rm : RoundingMode)
    (fflags : BitVec 32) :
    IsWidened a fflags (cvtSf32Sf64 a fflags) ∧ IsNarrowed rm b fflags (cvtSf64Sf32 b rm fflags) ∧
      (¬ IsNan a → cvtSf64Sf32 (cvtSf32Sf64 a fflags).1 rm (cvtSf32Sf64 a fflags).2 = (a, fflags)) :=
  ⟨cvtWiden_isWidened widens_sf32_sf64 a, cvtNarrow_isNarrowed widens_sf32_sf64 b,
    fun hnan => cvtNarrow_cvtWiden widens_sf32_sf64 hnan rm fflags⟩

end SoftFloat
end Riscbox

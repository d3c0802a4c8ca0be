import Riscbox.Collections.Limbs
import Riscbox.SoftFloat.Operands

/-!
# Products

A product of two words, by two ways of computing it, and the correctly rounded product of
two numbers.
-/

namespace Riscbox
namespace SoftFloat

open Rounding Format

variable {F : Format} {rm : RoundingMode} {fflags : BitVec 32} {a b : F.Word}

/-! ## Double words -/

theorem mulULong_pair (a b : F.Word) :
    pair (mulULong a b).1 (mulULong a b).2 = a.toNat * b.toNat := by
  have ha := a.isLt
  have hb := b.isLt
  have hpos := Nat.two_pow_pos F.fSize
  have hle : 2 ^ F.fSize ≤ 2 ^ (F.fSize + F.fSize) := Nat.pow_le_pow_right (by decide) (by omega)
  have hproduct : a.toNat * b.toNat < 2 ^ (F.fSize + F.fSize) := by
    rw [pow_add]
    exact Nat.mul_lt_mul'' ha hb
  have hlong : (a.setWidth (F.fSize + F.fSize) * b.setWidth (F.fSize + F.fSize)).toNat =
      a.toNat * b.toNat := by
    rw [BitVec.toNat_mul, BitVec.toNat_setWidth, BitVec.toNat_setWidth,
      Nat.mod_eq_of_lt (ha.trans_le hle), Nat.mod_eq_of_lt (hb.trans_le hle),
      Nat.mod_eq_of_lt hproduct]
  unfold mulULong
  dsimp only
  rw [pair, BitVec.toNat_setWidth, BitVec.toNat_setWidth, BitVec.toNat_ushiftRight,
    Nat.shiftRight_eq_div_pow, hlong, Nat.mod_eq_of_lt]
  · exact Nat.div_add_mod' _ _
  · rw [Nat.div_lt_iff_lt_mul hpos, ← pow_add]
    exact hproduct

section halves

/-- The number of values of a half word. -/
def halfBase (F : Format) : ℕ := 2 ^ (F.fSize / 2)

theorem halfBase_sq : halfBase F * halfBase F = 2 ^ F.fSize := by
  have heven := Nat.div_mul_cancel F.fSize_even
  rw [halfBase, ← pow_add]
  congr 1
  omega

theorem halfBase_ge : 4 ≤ halfBase F := by
  have hsize := F.fSize_eq
  have hexp := F.expSize_ge
  have hpow : 2 ^ 2 ≤ 2 ^ (F.fSize / 2) := Nat.pow_le_pow_right (by decide) (by omega)
  exact hpow

theorem halfBase_le : halfBase F ≤ 2 ^ F.fSize := Nat.pow_le_pow_right (by decide) (by omega)

@[simp] theorem word_toNat (x : BitVec (F.fSize / 2)) : (word x : F.Word).toNat = x.toNat := by
  rw [word, BitVec.toNat_setWidth]
  exact Nat.mod_eq_of_lt (x.isLt.trans_le halfBase_le)

@[simp] theorem half_toNat (x : F.Word) : (half x).toNat = x.toNat % halfBase F := by
  rw [half, BitVec.toNat_setWidth, halfBase]

@[simp] theorem shift_toNat (x : F.Word) :
    (x >>> (F.fSize / 2)).toNat = x.toNat / halfBase F := by
  rw [BitVec.toNat_ushiftRight, Nat.shiftRight_eq_div_pow, halfBase]

theorem shift_lt (x : F.Word) : x.toNat / halfBase F < halfBase F := by
  have hpos : 0 < halfBase F := Nat.two_pow_pos _
  rw [Nat.div_lt_iff_lt_mul hpos, halfBase_sq]
  exact x.isLt

theorem mul_words_toNat (x y : BitVec (F.fSize / 2)) :
    (word x * word y : F.Word).toNat = x.toNat * y.toNat := by
  rw [BitVec.toNat_mul, word_toNat, word_toNat]
  apply Nat.mod_eq_of_lt
  rw [← halfBase_sq]
  exact Nat.mul_lt_mul'' x.isLt y.isLt

/-- Two half words side by side. -/
theorem join_toNat (x y : BitVec (F.fSize / 2)) :
    (word x <<< (F.fSize / 2) ||| word y : F.Word).toNat = y.toNat + halfBase F * x.toNat := by
  have hx := x.isLt
  have hshift : (word x <<< (F.fSize / 2) : F.Word).toNat = x.toNat <<< (F.fSize / 2) := by
    rw [BitVec.toNat_shiftLeft, word_toNat, Nat.shiftLeft_eq]
    apply Nat.mod_eq_of_lt
    calc x.toNat * 2 ^ (F.fSize / 2) < 2 ^ (F.fSize / 2) * 2 ^ (F.fSize / 2) :=
          Nat.mul_lt_mul_of_pos_right hx (Nat.two_pow_pos _)
      _ = 2 ^ F.fSize := halfBase_sq
  rw [BitVec.toNat_or, hshift, word_toNat, ← Nat.shiftLeft_add_eq_or_of_lt y.isLt, Nat.shiftLeft_eq,
    halfBase]
  ring

/-- Four half words fit in a word. -/
theorem columns_fit : 4 * halfBase F ≤ 2 ^ F.fSize := by
  rw [← halfBase_sq]
  exact Nat.mul_le_mul_right (halfBase F) halfBase_ge

theorem mod_half_lt (n : ℕ) : n % halfBase F < halfBase F := Nat.mod_lt _ (Nat.two_pow_pos _)

theorem add_toNat {x y : F.Word} {m n : ℕ} (hx : x.toNat = m) (hy : y.toNat = n)
    (hlt : m + n < 2 ^ F.fSize) : (x + y).toNat = m + n := by
  rw [BitVec.toNat_add, hx, hy, Nat.mod_eq_of_lt hlt]

theorem word_half_toNat (x : F.Word) : (word (half x) : F.Word).toNat = x.toNat % halfBase F := by
  rw [word_toNat, half_toNat]

theorem mulColumn1_toNat (r00 r01 r10 : F.Word) :
    (mulColumn1 r00 r01 r10).toNat =
      r00.toNat / halfBase F + r01.toNat % halfBase F + r10.toNat % halfBase F := by
  have hfit := columns_fit (F := F)
  have h00 := shift_lt r00
  have h01 := mod_half_lt (F := F) r01.toNat
  have h10 := mod_half_lt (F := F) r10.toNat
  have hleft := add_toNat (shift_toNat r00) (word_half_toNat r01) (by omega)
  exact add_toNat hleft (word_half_toNat r10) (by omega)

theorem mulColumn2_toNat (c r01 r10 r11 : F.Word) :
    (mulColumn2 c r01 r10 r11).toNat = c.toNat / halfBase F + r01.toNat / halfBase F +
      r10.toNat / halfBase F + r11.toNat % halfBase F := by
  have hfit := columns_fit (F := F)
  have hc := shift_lt c
  have h01 := shift_lt r01
  have h10 := shift_lt r10
  have h11 := mod_half_lt (F := F) r11.toNat
  have hcarry := add_toNat (shift_toNat c) (shift_toNat r01) (by omega)
  have hleft := add_toNat hcarry (shift_toNat r10) (by omega)
  exact add_toNat hleft (word_half_toNat r11) (by omega)

/-- The product by halves loses nothing. -/
theorem mulUHalves_pair (a b : F.Word) :
    pair (mulUHalves a b).1 (mulUHalves a b).2 = a.toNat * b.toNat := by
  have hfit := columns_fit (F := F)
  have hc3 := Limbs.column3_lt (mod_half_lt (F := F) a.toNat) (shift_lt a)
    (mod_half_lt (F := F) b.toNat) (shift_lt b)
  have hproduct := Limbs.columns_eq (halfBase F) (a.toNat % halfBase F) (a.toNat / halfBase F)
    (b.toNat % halfBase F) (b.toNat / halfBase F)
  rw [Nat.mod_add_div, Nat.mod_add_div, halfBase_sq] at hproduct
  have h1 : ∀ x : F.Word, (half (x >>> (F.fSize / 2))).toNat = x.toNat / halfBase F := fun x => by
    rw [half_toNat, shift_toNat, Nat.mod_eq_of_lt (shift_lt x)]
  have hcolumn3 : ∀ c2 r11 : F.Word,
      c2.toNat / halfBase F + r11.toNat / halfBase F < halfBase F →
      (half (c2 >>> (F.fSize / 2) + r11 >>> (F.fSize / 2))).toNat =
        c2.toNat / halfBase F + r11.toNat / halfBase F := fun c2 r11 hlt => by
    rw [half_toNat, add_toNat (shift_toNat c2) (shift_toNat r11) (by omega), Nat.mod_eq_of_lt hlt]
  unfold mulUHalves
  dsimp only
  rw [pair, join_toNat, join_toNat, hcolumn3]
  · simp only [half_toNat, mulColumn2_toNat, mulColumn1_toNat, mul_words_toNat, h1]
    rw [hproduct]
    unfold Limbs.column3 Limbs.column2 Limbs.column1
    ring
  · simp only [mulColumn2_toNat, mulColumn1_toNat, mul_words_toNat, half_toNat, h1]
    exact hc3

end halves

/-- Both ways of multiplying give the product in two words. -/
theorem mulU_pair (a b : F.Word) : pair (mulU a b).1 (mulU a b).2 = a.toNat * b.toNat := by
  unfold mulU
  split
  · exact mulULong_pair a b
  · exact mulUHalves_pair a b

theorem pair_words (m1 m0 : F.Word) :
    m1.toNat = pair m1 m0 / 2 ^ F.fSize ∧ m0.toNat = pair m1 m0 % 2 ^ F.fSize := by
  have hlt := m0.isLt
  have hpos := Nat.two_pow_pos F.fSize
  unfold pair
  constructor
  · rw [Nat.add_comm, Nat.add_mul_div_right _ _ hpos, Nat.div_eq_of_lt hlt, Nat.zero_add]
  · rw [Nat.mul_add_mod_self_right, Nat.mod_eq_of_lt hlt]

/-- The upper word of a product with a sticky last bit. -/
theorem sticky_product (a b : F.Word) :
    ((mulU a b).1 ||| if (mulU a b).2 = 0 then (0 : F.Word) else 1).toNat =
      sticky (a.toNat * b.toNat / 2 ^ F.fSize) (a.toNat * b.toNat % 2 ^ F.fSize != 0) := by
  obtain ⟨hhigh, hlow⟩ := pair_words (mulU a b).1 (mulU a b).2
  rw [or_flag_toNat, hhigh, hlow, mulU_pair]

/-! ## The product of two numbers -/

theorem scaled_product {ea eb : ℤ} {ma mb : ℕ} :
    scaled F (ea + eb - 2 ^ (F.expSize - 1) + 2)
        (((ma * 2 ^ F.rndSize * (mb * 2 ^ (F.rndSize + 1)) : ℕ) : ℝ) / 2 ^ F.fSize) =
      ma * 2 ^ (ea - F.bias - F.mantSize) * (mb * 2 ^ (eb - F.bias - F.mantSize)) := by
  have hsize := F.fSize_rnd
  have himant := imantSize_eq (F := F)
  rw [scaled, ← F.bias_succ, div_eq_mul_inv, ← zpow_natCast (2 : ℝ) F.fSize, ← zpow_neg]
  push_cast
  have hsplit : (ma : ℝ) * 2 ^ F.rndSize * (mb * 2 ^ (F.rndSize + 1)) * 2 ^ (-(F.fSize : ℤ)) *
      2 ^ (ea + eb - (F.bias + 1) + 2 - F.bias - F.imantSize) =
        ma * mb * 2 ^ ((F.rndSize : ℤ) + (F.rndSize + 1 : ℕ) + -(F.fSize : ℤ) +
          (ea + eb - (F.bias + 1) + 2 - F.bias - F.imantSize)) := by
    rw [two_zpow_add, two_zpow_add, two_zpow_add, zpow_natCast, zpow_natCast]
    ring
  have hjoin : (ma : ℝ) * 2 ^ (ea - F.bias - F.mantSize) * (mb * 2 ^ (eb - F.bias - F.mantSize)) =
      ma * mb * 2 ^ (ea - F.bias - F.mantSize + (eb - F.bias - F.mantSize)) := by
    rw [two_zpow_add]
    ring
  rw [hsplit, hjoin, hsize, himant]
  congr 2
  push_cast
  ring

/-- The upper word of the product of two unpacked mantissas is full but for its upper bits. -/
theorem upper_product_bounds {ea eb : ℤ} {ma mb : F.Word} (hua : Unpacked a ea ma)
    (hub : Unpacked b eb mb) :
    2 ^ (F.fSize - 3) ≤
        ma.toNat * 2 ^ F.rndSize * (mb.toNat * 2 ^ (F.rndSize + 1)) / 2 ^ F.fSize ∧
      ma.toNat * 2 ^ F.rndSize * (mb.toNat * 2 ^ (F.rndSize + 1)) / 2 ^ F.fSize <
        2 ^ (F.imantSize + 1) := by
  have hsize := F.fSize_rnd
  have hge := F.rndSize_ge
  have hpos := Nat.two_pow_pos F.fSize
  constructor
  · rw [Nat.le_div_iff_mul_le hpos]
    calc 2 ^ (F.fSize - 3) * 2 ^ F.fSize
        = 2 ^ F.mantSize * 2 ^ F.rndSize * (2 ^ F.mantSize * 2 ^ (F.rndSize + 1)) := by
          rw [← pow_add, ← pow_add, ← pow_add, ← pow_add]
          congr 1
          omega
      _ ≤ _ := Nat.mul_le_mul (Nat.mul_le_mul_right _ hua.low) (Nat.mul_le_mul_right _ hub.low)
  · rw [Nat.div_lt_iff_lt_mul hpos]
    calc ma.toNat * 2 ^ F.rndSize * (mb.toNat * 2 ^ (F.rndSize + 1))
        < 2 ^ (F.mantSize + 1) * 2 ^ F.rndSize * (2 ^ (F.mantSize + 1) * 2 ^ (F.rndSize + 1)) :=
          Nat.mul_lt_mul'' (Nat.mul_lt_mul_of_pos_right hua.high (Nat.two_pow_pos _))
            (Nat.mul_lt_mul_of_pos_right hub.high (Nat.two_pow_pos _))
      _ = 2 ^ (F.imantSize + 1) * 2 ^ F.fSize := by
          have himant := imantSize_eq (F := F)
          rw [← pow_add, ← pow_add, ← pow_add, ← pow_add]
          congr 1
          omega

theorem mulFinite_isRounded (ha : ¬ IsZero a) (hb : ¬ IsZero b) :
    IsRounded F rm (signOf a ^^ signOf b) (magnitude a * magnitude b) fflags
      (mulFinite a b rm fflags) := by
  have hua := unpackNormal_unpacked ha
  have hub := unpackNormal_unpacked hb
  unfold mulFinite
  generalize unpackNormal a = ua at hua ⊢
  generalize unpackNormal b = ub at hub ⊢
  obtain ⟨ea, ma⟩ := ua
  obtain ⟨eb, mb⟩ := ub
  dsimp only at hua hub ⊢
  have hsize := F.fSize_rnd
  have hge := F.rndSize_ge
  have hA : (ma <<< F.rndSize).toNat = ma.toNat * 2 ^ F.rndSize := hua.shift (by omega)
  have hB : (mb <<< (F.rndSize + 1)).toNat = mb.toNat * 2 ^ (F.rndSize + 1) := hub.shift (by omega)
  have hmant := sticky_product (ma <<< F.rndSize) (mb <<< (F.rndSize + 1))
  rw [hA, hB] at hmant
  obtain ⟨hlow, hhigh⟩ := upper_product_bounds hua hub
  rw [hua.value, hub.value, ← scaled_product]
  apply normalizeSf_sticky
  · rw [Small, hmant, fSize_half]
    exact sticky_le_half hhigh
  · rw [hmant]
    exact sticky_shift_alike _ _
  · right
    rw [hmant]
    refine le_trans ?_ (hlow.trans (le_sticky _ _))
    exact Nat.pow_le_pow_right (by decide) (by omega)

/-- What the standard asks of a product. -/
structure IsProduct (rm : RoundingMode) (a b : F.Word) (fflags : BitVec 32) (r : F.Result) :
    Prop where
  nan : IsNan a ∨ IsNan b → r = nanResult F (decide (IsSignaling a ∨ IsSignaling b)) fflags
  invalid : IsInfinite a ∧ IsZero b ∨ IsZero a ∧ IsInfinite b → r = invalidResult F fflags
  infinite : IsInfinite a ∧ ¬ IsNan b ∧ ¬ IsZero b ∨ IsInfinite b ∧ ¬ IsNan a ∧ ¬ IsZero a →
    r = (infinity F (signOf a ^^ signOf b), fflags)
  finite : IsFinite a → IsFinite b →
    IsRounded F rm (signOf a ^^ signOf b) (magnitude a * magnitude b) fflags r

theorem mulSf_nan (h : IsNan a ∨ IsNan b) :
    mulSf a b rm fflags = nanResult F (decide (IsSignaling a ∨ IsSignaling b)) fflags := by
  have hexp : expOf a = F.expMask ∨ expOf b = F.expMask := h.imp And.left And.left
  have hnan : isnanSf a = true ∨ isnanSf b = true := by rwa [isnanSf_iff, isnanSf_iff]
  unfold mulSf
  dsimp only
  rw [if_pos hexp, if_pos hnan]
  exact nanResult_eq (by rw [issignanSf_iff, issignanSf_iff])

/-- The operands are numbers, of which one is infinite. -/
theorem mulSf_infinite (h : IsInfinite a ∨ IsInfinite b) (ha : ¬ IsNan a) (hb : ¬ IsNan b) :
    mulSf a b rm fflags =
      if IsInfinite a ∧ IsZero b ∨ IsZero a ∧ IsInfinite b then invalidResult F fflags
      else (infinity F (signOf a ^^ signOf b), fflags) := by
  have hexp : expOf a = F.expMask ∨ expOf b = F.expMask := h.imp And.left And.left
  have hnan : ¬ (isnanSf a = true ∨ isnanSf b = true) := by
    rw [isnanSf_iff, isnanSf_iff]
    exact fun h => h.elim ha hb
  have hinfA : expOf a = F.expMask ↔ IsInfinite a :=
    ⟨fun hmask => (infinite_or_nan hmask).resolve_right ha, And.left⟩
  have hinfB : expOf b = F.expMask ↔ IsInfinite b :=
    ⟨fun hmask => (infinite_or_nan hmask).resolve_right hb, And.left⟩
  unfold mulSf
  dsimp only
  rw [if_pos hexp, if_neg hnan]
  simp only [hinfA, hinfB, ← isZero_iff, and_comm (a := IsZero a)]
  rfl

theorem mulSf_finite (ha : IsFinite a) (hb : IsFinite b) :
    IsRounded F rm (signOf a ^^ signOf b) (magnitude a * magnitude b) fflags
      (mulSf a b rm fflags) := by
  have hexp : ¬ (expOf a = F.expMask ∨ expOf b = F.expMask) := fun h => h.elim ha hb
  unfold mulSf
  dsimp only
  rw [if_neg hexp]
  simp only [← isZero_iff]
  by_cases hza : IsZero a
  · rw [if_pos hza, magnitude_eq_zero_iff.mpr hza, zero_mul]
    exact isRounded_zero
  · by_cases hzb : IsZero b
    · rw [if_neg hza, if_pos hzb, magnitude_eq_zero_iff.mpr hzb, mul_zero]
      exact isRounded_zero
    · rw [if_neg hza, if_neg hzb]
      exact mulFinite_isRounded hza hzb

/-- `mul_sf` is correct for all operands, in all rounding modes. -/
theorem mulSf_isProduct (a b : F.Word) (rm : RoundingMode) (fflags : BitVec 32) :
    IsProduct rm a b fflags (mulSf a b rm fflags) where
  nan := mulSf_nan
  invalid := by
    rintro (⟨ha, hb⟩ | ⟨ha, hb⟩)
    · rw [mulSf_infinite (Or.inl ha) ha.not_nan (finite_zero hb).not_nan, if_pos (Or.inl ⟨ha, hb⟩)]
    · rw [mulSf_infinite (Or.inr hb) (finite_zero ha).not_nan hb.not_nan, if_pos (Or.inr ⟨ha, hb⟩)]
  infinite := by
    rintro (⟨ha, hnan, hzero⟩ | ⟨hb, hnan, hzero⟩)
    · rw [mulSf_infinite (Or.inl ha) ha.not_nan hnan, if_neg]
      rintro (⟨_, hb⟩ | ⟨hza, _⟩)
      · exact hzero hb
      · exact ha.not_zero hza
    · rw [mulSf_infinite (Or.inr hb) hnan hb.not_nan, if_neg]
      rintro (⟨_, hzb⟩ | ⟨hza, _⟩)
      · exact hb.not_zero hzb
      · exact hzero hza
  finite := mulSf_finite

end SoftFloat
end Riscbox

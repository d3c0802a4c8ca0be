import Riscbox.Arithmetic.Iterations
import Riscbox.SoftFloat.Product

/-!
# Quotients

A quotient of two words by one, by two ways of computing it, and the correctly rounded
quotient of two numbers.
-/

namespace Riscbox
namespace SoftFloat

open Rounding Format

variable {F : Format} {rm : RoundingMode} {fflags : BitVec 32} {a b : F.Word} {a1 a0 : F.Word}

/-! ## Double words -/

theorem pair_lt (a1 a0 : F.Word) : pair a1 a0 < 2 ^ (F.fSize + F.fSize) := by
  have h1 := a1.isLt
  have h0 := a0.isLt
  rw [pow_add, pair]
  calc a1.toNat * 2 ^ F.fSize + a0.toNat < a1.toNat * 2 ^ F.fSize + 2 ^ F.fSize :=
        Nat.add_lt_add_left h0 _
    _ = (a1.toNat + 1) * 2 ^ F.fSize := by ring
    _ ≤ 2 ^ F.fSize * 2 ^ F.fSize := Nat.mul_le_mul_right _ h1

/-- Two words joined in one of twice the size. -/
theorem long_toNat (a1 a0 : F.Word) :
    (a1.setWidth (F.fSize + F.fSize) <<< F.fSize ||| a0.setWidth (F.fSize + F.fSize)).toNat =
      pair a1 a0 := by
  have hle : 2 ^ F.fSize ≤ 2 ^ (F.fSize + F.fSize) := Nat.pow_le_pow_right (by decide) (by omega)
  have hpair := pair_lt a1 a0
  rw [pair] at hpair
  have hshift : (a1.setWidth (F.fSize + F.fSize) <<< F.fSize).toNat = a1.toNat <<< F.fSize := by
    rw [BitVec.toNat_shiftLeft, BitVec.toNat_setWidth, Nat.mod_eq_of_lt (a1.isLt.trans_le hle),
      Nat.shiftLeft_eq]
    exact Nat.mod_eq_of_lt (by omega)
  rw [BitVec.toNat_or, hshift, BitVec.toNat_setWidth, Nat.mod_eq_of_lt (a0.isLt.trans_le hle),
    ← Nat.shiftLeft_add_eq_or_of_lt a0.isLt, Nat.shiftLeft_eq, pair]

theorem setWidth_long (b : F.Word) : (b.setWidth (F.fSize + F.fSize)).toNat = b.toNat := by
  have hle : 2 ^ F.fSize ≤ 2 ^ (F.fSize + F.fSize) := Nat.pow_le_pow_right (by decide) (by omega)
  rw [BitVec.toNat_setWidth, Nat.mod_eq_of_lt (b.isLt.trans_le hle)]

theorem quotient_lt (h : a1 < b) : pair a1 a0 / b.toNat < 2 ^ F.fSize := by
  have hlt := BitVec.lt_def.mp h
  have h0 := a0.isLt
  rw [Nat.div_lt_iff_lt_mul (by omega), pair]
  calc a1.toNat * 2 ^ F.fSize + a0.toNat < a1.toNat * 2 ^ F.fSize + 2 ^ F.fSize :=
        Nat.add_lt_add_left h0 _
    _ = (a1.toNat + 1) * 2 ^ F.fSize := by ring
    _ ≤ b.toNat * 2 ^ F.fSize := Nat.mul_le_mul_right _ hlt
    _ = 2 ^ F.fSize * b.toNat := Nat.mul_comm _ _

/-- The quotient and the remainder of two words by a greater one than the upper. -/
structure IsQuotient (a1 a0 b : F.Word) (r : F.Word × F.Word) : Prop where
  quotient : r.1.toNat = pair a1 a0 / b.toNat
  remainder : r.2.toNat = pair a1 a0 % b.toNat

theorem divremULong_isQuotient (h : a1 < b) : IsQuotient a1 a0 b (divremULong a1 a0 b) := by
  have hlt := BitVec.lt_def.mp h
  have hmod : pair a1 a0 % b.toNat < b.toNat := Nat.mod_lt _ (by omega)
  have hb := b.isLt
  unfold divremULong
  dsimp only
  constructor
  · dsimp only
    rw [BitVec.toNat_setWidth, BitVec.toNat_udiv, long_toNat, setWidth_long]
    exact Nat.mod_eq_of_lt (quotient_lt h)
  · dsimp only
    rw [BitVec.toNat_setWidth, BitVec.toNat_umod, long_toNat, setWidth_long]
    exact Nat.mod_eq_of_lt (by omega)

/-! ## The loop -/

/-- The bit that leaves the lower word. -/
def topBit (a0 : F.Word) : ℕ := a0.toNat / 2 ^ (F.fSize - 1)

theorem topBit_lt (a0 : F.Word) : topBit a0 < 2 := by
  have hlt := word_lt a0
  rw [topBit, Nat.div_lt_iff_lt_mul (Nat.two_pow_pos _)]
  exact hlt

theorem double_toNat (a0 : F.Word) (q : F.Word) (hq : q.toNat < 2) :
    (a0 <<< 1 ||| q).toNat = a0.toNat % 2 ^ (F.fSize - 1) * 2 + q.toNat := by
  have hfull := two_pow_half (F := F)
  have hlow : (a0 <<< 1).toNat = (a0.toNat % 2 ^ (F.fSize - 1)) <<< 1 := by
    rw [BitVec.toNat_shiftLeft, Nat.shiftLeft_eq, Nat.shiftLeft_eq, pow_one, hfull,
      Nat.mul_comm 2, Nat.mul_mod_mul_right]
  rw [BitVec.toNat_or, hlow, ← Nat.shiftLeft_add_eq_or_of_lt (by simpa using hq), Nat.shiftLeft_eq,
    pow_one]

theorem divremBit_spec {r : F.Word × F.Word} (h : r.1 < b) :
    (divremBit b r).1.toNat = (2 * r.1.toNat + topBit r.2) % b.toNat ∧
      (divremBit b r).2.toNat = r.2.toNat % 2 ^ (F.fSize - 1) * 2 +
        (2 * r.1.toNat + topBit r.2) / b.toNat := by
  have hlt := BitVec.lt_def.mp h
  have hb := b.isLt
  have htop := topBit_lt r.2
  have hfull := two_pow_half (F := F)
  have hx : 2 * r.1.toNat + topBit r.2 < 2 * b.toNat := by omega
  have htopWord : (r.2 >>> (F.fSize - 1)).toNat = topBit r.2 := by
    rw [BitVec.toNat_ushiftRight, Nat.shiftRight_eq_div_pow, topBit]
  have hcarry : (r.1 >>> (F.fSize - 1)).toNat = topBit r.1 := by
    rw [BitVec.toNat_ushiftRight, Nat.shiftRight_eq_div_pow, topBit]
  have hsplit : r.1.toNat % 2 ^ (F.fSize - 1) + 2 ^ (F.fSize - 1) * topBit r.1 = r.1.toNat :=
    Nat.mod_add_div _ _
  have hcarryLt := topBit_lt r.1
  have ha1 := double_toNat r.1 (r.2 >>> (F.fSize - 1)) (by rwa [htopWord])
  rw [htopWord] at ha1
  have hbit0 := double_toNat r.2 0 (by rw [zero_toNat]; decide)
  have hbit1 := double_toNat r.2 1 (by rw [one_toNat]; decide)
  rw [zero_toNat] at hbit0
  rw [one_toNat] at hbit1
  rw [Iterations.remainder_bit hx, Iterations.quotient_bit hx]
  generalize topBit r.2 = t at *
  -- The bit shifted out of the upper word counts as much as the whole word.
  obtain hzero | hone : topBit r.1 = 0 ∨ topBit r.1 = 1 := by omega
  · have hgoes : (r.1 >>> (F.fSize - 1) ≠ 0 ∨ b ≤ r.1 <<< 1 ||| r.2 >>> (F.fSize - 1)) ↔
        b.toNat ≤ 2 * r.1.toNat + t := by
      rw [ne_eq, ← toNat_eq_zero_iff, hcarry, BitVec.le_def, ha1, hzero]
      rw [hzero] at hsplit
      omega
    rw [hzero] at hsplit
    unfold divremBit
    dsimp only
    by_cases hgo : b.toNat ≤ 2 * r.1.toNat + t
    · rw [if_pos (hgoes.mpr hgo), if_pos hgo, if_pos hgo]
      refine ⟨?_, hbit1⟩
      dsimp only
      have hword : 2 ^ F.fSize - b.toNat + (r.1.toNat % 2 ^ (F.fSize - 1) * 2 + t) =
          2 * r.1.toNat + t - b.toNat + 2 ^ F.fSize := by omega
      rw [BitVec.toNat_sub, ha1, hword, Nat.add_mod_right]
      exact Nat.mod_eq_of_lt (by omega)
    · rw [if_neg (fun h => hgo (hgoes.mp h)), if_neg hgo, if_neg hgo]
      refine ⟨?_, hbit0⟩
      dsimp only
      omega
  · have hgoes : r.1 >>> (F.fSize - 1) ≠ 0 ∨ b ≤ r.1 <<< 1 ||| r.2 >>> (F.fSize - 1) := by
      left
      rw [ne_eq, ← toNat_eq_zero_iff, hcarry, hone]
      decide
    rw [hone] at hsplit
    have hgo : b.toNat ≤ 2 * r.1.toNat + t := by omega
    unfold divremBit
    dsimp only
    rw [if_pos hgoes, if_pos hgo, if_pos hgo]
    refine ⟨?_, hbit1⟩
    dsimp only
    have hword : 2 ^ F.fSize - b.toNat + (r.1.toNat % 2 ^ (F.fSize - 1) * 2 + t) =
        2 * r.1.toNat + t - b.toNat := by omega
    rw [BitVec.toNat_sub, ha1, hword]
    exact Nat.mod_eq_of_lt (by omega)

/-- The loop with `n` bits to go.  The lower word holds what is left of the dividend above
the quotient so far. -/
theorem divremLoop_spec {n d q : ℕ} {r : F.Word × F.Word} (hn : n ≤ F.fSize) (h : r.1 < b)
    (hd : d < 2 ^ n) (hq : q < 2 ^ (F.fSize - n)) (hr : r.2.toNat = d * 2 ^ (F.fSize - n) + q) :
    (divremLoop b n r).1.toNat = (r.1.toNat * 2 ^ n + d) % b.toNat ∧
      (divremLoop b n r).2.toNat = q * 2 ^ n + (r.1.toNat * 2 ^ n + d) / b.toNat := by
  induction n generalizing d q r with
  | zero =>
    have hlt := BitVec.lt_def.mp h
    have hzero : d = 0 := by simpa using hd
    rw [hzero, Nat.zero_mul, Nat.zero_add] at hr
    rw [divremLoop, hzero, pow_zero, Nat.mul_one, Nat.mul_one, Nat.add_zero, Nat.mod_eq_of_lt hlt,
      Nat.div_eq_of_lt hlt, hr]
    exact ⟨rfl, rfl⟩
  | succ n ih =>
    have hlt := BitVec.lt_def.mp h
    have hpos : 0 < b.toNat := by omega
    have hpow : 2 ^ (F.fSize - n) = 2 ^ (F.fSize - (n + 1)) * 2 := by
      rw [← pow_succ]
      congr 1
      omega
    have hhalf : 2 ^ (F.fSize - 1) = 2 ^ n * 2 ^ (F.fSize - (n + 1)) := by
      rw [← pow_add]
      congr 1
      omega
    have hsplit := Nat.div_add_mod' d (2 ^ n)
    have hmod : d % 2 ^ n < 2 ^ n := Nat.mod_lt _ (Nat.two_pow_pos n)
    have hrest : d % 2 ^ n * 2 ^ (F.fSize - (n + 1)) + q < 2 ^ (F.fSize - 1) := by
      rw [hhalf]
      calc d % 2 ^ n * 2 ^ (F.fSize - (n + 1)) + q
          < d % 2 ^ n * 2 ^ (F.fSize - (n + 1)) + 2 ^ (F.fSize - (n + 1)) :=
            Nat.add_lt_add_left hq _
        _ = (d % 2 ^ n + 1) * 2 ^ (F.fSize - (n + 1)) := by ring
        _ ≤ 2 ^ n * 2 ^ (F.fSize - (n + 1)) := Nat.mul_le_mul_right _ hmod
    have hlower : r.2.toNat = d % 2 ^ n * 2 ^ (F.fSize - (n + 1)) + q +
        d / 2 ^ n * 2 ^ (F.fSize - 1) := by
      rw [hr, hhalf]
      nth_rewrite 1 [← hsplit]
      ring
    have htop : topBit r.2 = d / 2 ^ n := by
      rw [topBit, hlower, Nat.add_mul_div_right _ _ (Nat.two_pow_pos _), Nat.div_eq_of_lt hrest,
        Nat.zero_add]
    have hlow : r.2.toNat % 2 ^ (F.fSize - 1) = d % 2 ^ n * 2 ^ (F.fSize - (n + 1)) + q := by
      rw [hlower, Nat.add_mul_mod_self_right, Nat.mod_eq_of_lt hrest]
    obtain ⟨hupper, hword⟩ := divremBit_spec h
    have hbit : (2 * r.1.toNat + topBit r.2) / b.toNat < 2 := by
      have htopLt := topBit_lt r.2
      rw [Nat.div_lt_iff_lt_mul hpos]
      omega
    have hnext := ih (d := d % 2 ^ n)
      (q := q * 2 + (2 * r.1.toNat + topBit r.2) / b.toNat) (r := divremBit b r) (by omega)
      (BitVec.lt_def.mpr (by rw [hupper]; exact Nat.mod_lt _ hpos)) hmod (by omega)
      (by rw [hword, hlow, hpow]; ring)
    have hdivide := Iterations.divide_leading (x := 2 * r.1.toNat + topBit r.2) (d := d % 2 ^ n)
      hpos n
    have hwhole : r.1.toNat * 2 ^ (n + 1) + d =
        (2 * r.1.toNat + topBit r.2) * 2 ^ n + d % 2 ^ n := by
      rw [htop]
      nth_rewrite 1 [← hsplit]
      ring
    rw [divremLoop, hwhole, hdivide.1, hdivide.2, hnext.1, hnext.2, hupper]
    refine ⟨rfl, ?_⟩
    ring

theorem divremU_isQuotient (h : a1 < b) : IsQuotient a1 a0 b (divremU a1 a0 b) := by
  unfold divremU
  split
  · exact divremULong_isQuotient h
  · have hloop := divremLoop_spec (q := 0) (d := a0.toNat) (r := (a1, a0)) le_rfl h a0.isLt
      (by rw [Nat.sub_self]; decide) (by rw [Nat.sub_self, pow_zero, Nat.mul_one, Nat.add_zero])
    dsimp only at hloop ⊢
    rw [Nat.zero_mul, Nat.zero_add] at hloop
    exact ⟨hloop.2, hloop.1⟩

/-! ## The quotient of two numbers -/

theorem scaled_quotient {ea eb : ℤ} {ma mb : ℕ} :
    scaled F (ea - eb + 2 ^ (F.expSize - 1) - 1)
        (((ma * 2 ^ F.fSize : ℕ) : ℝ) / ((mb * 2 ^ 2 : ℕ) : ℝ)) =
      ma * 2 ^ (ea - F.bias - F.mantSize) / (mb * 2 ^ (eb - F.bias - F.mantSize)) := by
  have hsize := F.fSize_rnd
  have himant := imantSize_eq (F := F)
  have hfour : (4 : ℝ) = 2 ^ (2 : ℤ) := by norm_num
  rw [scaled, ← F.bias_succ, mul_div_mul_comm, ← zpow_sub₀ two_ne_zero]
  push_cast
  rw [mul_div_mul_comm, hfour, ← zpow_natCast (2 : ℝ) F.fSize, ← zpow_sub₀ two_ne_zero, mul_assoc,
    ← two_zpow_add]
  congr 2
  rw [hsize, himant]
  push_cast
  ring

/-- The quotient of two unpacked mantissas fills the word but for its upper bits. -/
theorem quotient_bounds {ea eb : ℤ} {ma mb : F.Word} (hua : Unpacked a ea ma)
    (hub : Unpacked b eb mb) :
    2 ^ (F.fSize - 3) ≤ ma.toNat * 2 ^ F.fSize / (mb.toNat * 2 ^ 2) ∧
      ma.toNat * 2 ^ F.fSize / (mb.toNat * 2 ^ 2) < 2 ^ (F.imantSize + 1) := by
  have hsize := F.fSize_rnd
  have hge := F.rndSize_ge
  have hmbLow := hub.low
  have hpos : 0 < mb.toNat * 2 ^ 2 := by
    have := Nat.two_pow_pos F.mantSize
    omega
  constructor
  · rw [Nat.le_div_iff_mul_le hpos]
    calc 2 ^ (F.fSize - 3) * (mb.toNat * 2 ^ 2)
        ≤ 2 ^ (F.fSize - 3) * (2 ^ (F.mantSize + 1) * 2 ^ 2) :=
          Nat.mul_le_mul_left _ (Nat.mul_le_mul_right _ hub.high.le)
      _ = 2 ^ F.mantSize * 2 ^ F.fSize := by
          rw [← pow_add, ← pow_add, ← pow_add]
          congr 1
          omega
      _ ≤ ma.toNat * 2 ^ F.fSize := Nat.mul_le_mul_right _ hua.low
  · have himant := imantSize_eq (F := F)
    rw [Nat.div_lt_iff_lt_mul hpos]
    calc ma.toNat * 2 ^ F.fSize < 2 ^ (F.mantSize + 1) * 2 ^ F.fSize :=
          Nat.mul_lt_mul_of_pos_right hua.high (Nat.two_pow_pos _)
      _ = 2 ^ (F.imantSize + 1) * (2 ^ F.mantSize * 2 ^ 2) := by
          rw [← pow_add, ← pow_add, ← pow_add]
          congr 1
          omega
      _ ≤ 2 ^ (F.imantSize + 1) * (mb.toNat * 2 ^ 2) :=
          Nat.mul_le_mul_left _ (Nat.mul_le_mul_right _ hmbLow)

theorem divFinite_isRounded (ha : ¬ IsZero a) (hb : ¬ IsZero b) :
    IsRounded F rm (signOf a ^^ signOf b) (magnitude a / magnitude b) fflags
      (divFinite a b rm fflags) := by
  have hua := unpackNormal_unpacked ha
  have hub := unpackNormal_unpacked hb
  unfold divFinite
  generalize unpackNormal a = ua at hua ⊢
  generalize unpackNormal b = ub at hub ⊢
  obtain ⟨ea, ma⟩ := ua
  obtain ⟨eb, mb⟩ := ub
  dsimp only at hua hub ⊢
  have hsize := F.fSize_rnd
  have hge := F.rndSize_ge
  have hsucc : 2 ^ (F.mantSize + 1) = 2 * 2 ^ F.mantSize := pow_succ' 2 _
  have hmaLow := hua.low
  have hmaHigh := hua.high
  have hmbLow := hub.low
  have hmbHigh := hub.high
  have hB : (mb <<< 2).toNat = mb.toNat * 2 ^ 2 := hub.shift (by omega)
  have hpos : 0 < mb.toNat * 2 ^ 2 := by
    have := Nat.two_pow_pos F.mantSize
    omega
  have hupper : ma < mb <<< 2 := by
    rw [BitVec.lt_def, hB]
    omega
  have hquotient : IsQuotient ma 0 (mb <<< 2) (divremU ma 0 (mb <<< 2)) :=
    divremU_isQuotient hupper
  have hpair : pair ma 0 = ma.toNat * 2 ^ F.fSize := by rw [pair, zero_toNat, Nat.add_zero]
  have hmant : ((divremU ma 0 (mb <<< 2)).1 |||
      if (divremU ma 0 (mb <<< 2)).2 = 0 then (0 : F.Word) else 1).toNat =
        sticky (ma.toNat * 2 ^ F.fSize / (mb.toNat * 2 ^ 2))
          (ma.toNat * 2 ^ F.fSize % (mb.toNat * 2 ^ 2) != 0) := by
    rw [or_flag_toNat, hquotient.quotient, hquotient.remainder, hpair, hB]
  obtain ⟨hlow, hhigh⟩ := quotient_bounds hua hub
  rw [hua.value, hub.value, ← scaled_quotient]
  apply normalizeSf_sticky
  · rw [Small, hmant, fSize_half]
    exact sticky_le_half hhigh
  · rw [hmant]
    exact sticky_div_alike hpos
  · right
    rw [hmant]
    refine le_trans ?_ (hlow.trans (le_sticky _ _))
    exact Nat.pow_le_pow_right (by decide) (by omega)

/-- What the standard asks of a quotient. -/
structure IsQuotientOf (rm : RoundingMode) (a b : F.Word) (fflags : BitVec 32) (r : F.Result) :
    Prop where
  nan : IsNan a ∨ IsNan b → r = nanResult F (decide (IsSignaling a ∨ IsSignaling b)) fflags
  invalid : IsInfinite a ∧ IsInfinite b ∨ IsZero a ∧ IsZero b → r = invalidResult F fflags
  infinite : IsInfinite a → IsFinite b → r = (infinity F (signOf a ^^ signOf b), fflags)
  zero : IsFinite a → IsInfinite b → r = (zero F (signOf a ^^ signOf b), fflags)
  divideZero : IsFinite a → ¬ IsZero a → IsZero b →
    r = (infinity F (signOf a ^^ signOf b), fflags ||| fflagDivideZero)
  finite : IsFinite a → IsFinite b → ¬ IsZero b →
    IsRounded F rm (signOf a ^^ signOf b) (magnitude a / magnitude b) fflags r

theorem divSf_nan (h : IsNan a ∨ IsNan b) :
    divSf a b rm fflags = nanResult F (decide (IsSignaling a ∨ IsSignaling b)) fflags := by
  have hnan : (F.qnan, if issignanSf a = true ∨ issignanSf b = true then fflags ||| fflagInvalidOp
      else fflags) = nanResult F (decide (IsSignaling a ∨ IsSignaling b)) fflags :=
    nanResult_eq (by rw [issignanSf_iff, issignanSf_iff])
  unfold divSf
  dsimp only
  rw [hnan]
  by_cases hexp : expOf a = F.expMask
  · have hor : mantOf a ≠ 0 ∨ isnanSf b = true := by
      rw [isnanSf_iff]
      exact h.imp_left And.right
    rw [if_pos hexp, if_pos hor]
  · obtain ha | hb := h
    · exact absurd ha.1 hexp
    · rw [if_neg hexp, if_pos hb.1, if_pos hb.2]

theorem divSf_finite (ha : IsFinite a) (hb : IsFinite b) (hzb : ¬ IsZero b) :
    IsRounded F rm (signOf a ^^ signOf b) (magnitude a / magnitude b) fflags
      (divSf a b rm fflags) := by
  unfold divSf
  dsimp only
  rw [if_neg ha, if_neg hb]
  simp only [← isZero_iff]
  rw [if_neg hzb]
  by_cases hza : IsZero a
  · rw [if_pos hza, magnitude_eq_zero_iff.mpr hza, zero_div]
    exact isRounded_zero
  · rw [if_neg hza]
    exact divFinite_isRounded hza hzb

/-- `div_sf` is correct for all operands, in all rounding modes. -/
theorem divSf_isQuotientOf (a b : F.Word) (rm : RoundingMode) (fflags : BitVec 32) :
    IsQuotientOf rm a b fflags (divSf a b rm fflags) where
  nan := divSf_nan
  invalid := by
    rintro (⟨ha, hb⟩ | ⟨ha, hb⟩)
    · have hor : ¬ (mantOf a ≠ 0 ∨ isnanSf b = true) := by
        rw [isnanSf_iff]
        exact fun h => h.elim (fun hne => hne ha.2) hb.not_nan
      unfold divSf
      dsimp only
      rw [if_pos ha.1, if_neg hor, if_pos hb.1]
      rfl
    · unfold divSf
      dsimp only
      rw [if_neg (finite_zero ha), if_neg (finite_zero hb)]
      simp only [← isZero_iff]
      rw [if_pos hb, if_pos ha]
      rfl
  infinite := by
    intro ha hb
    have hor : ¬ (mantOf a ≠ 0 ∨ isnanSf b = true) := by
      rw [isnanSf_iff]
      exact fun h => h.elim (fun hne => hne ha.2) hb.not_nan
    unfold divSf
    dsimp only
    rw [if_pos ha.1, if_neg hor, if_neg hb]
    rfl
  zero := by
    intro ha hb
    unfold divSf
    dsimp only
    rw [if_neg ha, if_pos hb.1, if_neg (not_not.mpr hb.2)]
    rfl
  divideZero := by
    intro ha hza hb
    unfold divSf
    dsimp only
    rw [if_neg ha, if_neg (finite_zero hb)]
    simp only [← isZero_iff]
    rw [if_pos hb]
    exact if_neg hza
  finite := divSf_finite

end SoftFloat
end Riscbox

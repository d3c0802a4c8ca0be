import Riscbox.SoftFloat.Product
import Riscbox.SoftFloat.Sum

/-!
# Fused products and sums

The double word that holds the smaller term loses bits below its lower word only.  Where it
is the product that is shifted past the lower word, no sticky bit stands for the dropped word,
but the addend then has nothing in its lower word that the shifted bits could be compared with.
-/

namespace Riscbox
namespace SoftFloat

open Rounding Format

attribute [local instance] atLeastTwo

variable {F : Format} {rm : RoundingMode} {fflags : BitVec 32} {a b c : F.Word}

/-! ## Sums and differences of two words -/

theorem pair_add {r1 r0 c1 c0 : F.Word} (hfit : pair r1 r0 + pair c1 c0 < 2 ^ (2 * F.fSize)) :
    pair (r1 + (c1 + if r0 + c0 < c0 then 1 else 0)) (r0 + c0) = pair r1 r0 + pair c1 c0 := by
  have hr0 := r0.isLt
  have hc0 := c0.isLt
  have hupper : ∀ k : ℕ, k * 2 ^ F.fSize ≤ r0.toNat + c0.toNat →
      r1.toNat + (c1.toNat + k) < 2 ^ F.fSize := by
    intro k hk
    rw [two_size] at hfit
    apply lt_of_mul_lt_mul_right (lt_of_le_of_lt _ hfit) (Nat.zero_le _)
    unfold pair
    rw [Nat.add_mul, Nat.add_mul]
    omega
  by_cases hcarry : r0.toNat + c0.toNat < 2 ^ F.fSize
  · have hlow : (r0 + c0).toNat = r0.toNat + c0.toNat := BitVec.toNat_add_of_lt hcarry
    have hnone : ¬ r0 + c0 < c0 := by
      rw [BitVec.lt_def, hlow]
      omega
    have hzero := hupper 0 (by omega)
    have hinner : (c1 + (0 : F.Word)).toNat = c1.toNat := congrArg _ (BitVec.add_zero c1)
    rw [if_neg hnone, pair, hlow, BitVec.toNat_add_of_lt (by rw [hinner]; omega), hinner, pair,
      pair, Nat.add_mul]
    omega
  · have hlow : (r0 + c0).toNat = r0.toNat + c0.toNat - 2 ^ F.fSize := by
      rw [BitVec.toNat_add, Nat.mod_eq_sub_mod (by omega), Nat.mod_eq_of_lt (by omega)]
    have hsome : r0 + c0 < c0 := by
      rw [BitVec.lt_def, hlow]
      omega
    have hone := hupper 1 (by omega)
    have hinner : (c1 + (1 : F.Word)).toNat = c1.toNat + 1 := by
      rw [BitVec.toNat_add_of_lt (by rw [one_toNat]; omega), one_toNat]
    rw [if_pos hsome, pair, hlow, BitVec.toNat_add_of_lt (by rw [hinner]; omega), hinner, pair,
      pair, Nat.add_mul, Nat.add_mul]
    omega

theorem pair_sub {r1 r0 c1 c0 : F.Word} (hle : pair c1 c0 ≤ pair r1 r0) :
    pair (r1 - c1 - if r0 < r0 - c0 then 1 else 0) (r0 - c0) = pair r1 r0 - pair c1 c0 := by
  have hr0 := r0.isLt
  have hc0 := c0.isLt
  unfold pair at hle ⊢
  by_cases hborrow : c0.toNat ≤ r0.toNat
  · have hlow : (r0 - c0).toNat = r0.toNat - c0.toNat := BitVec.toNat_sub_of_le hborrow
    have hnone : ¬ r0 < r0 - c0 := by
      rw [BitVec.lt_def, hlow]
      omega
    have hupper : c1.toNat ≤ r1.toNat := by
      by_contra hlt
      have hmul := Nat.mul_le_mul_right (2 ^ F.fSize) (Nat.succ_le_of_lt (not_le.mp hlt))
      rw [Nat.succ_mul] at hmul
      omega
    have hword : (r1 - c1 - (0 : F.Word)).toNat = r1.toNat - c1.toNat := by
      rw [← BitVec.toNat_sub_of_le hupper]
      exact congrArg _ (BitVec.sub_zero (r1 - c1))
    rw [if_neg hnone, hword, hlow, Nat.sub_mul]
    have hmul := Nat.mul_le_mul_right (2 ^ F.fSize) hupper
    omega
  · have hlow : (r0 - c0).toNat = 2 ^ F.fSize - c0.toNat + r0.toNat := by
      rw [BitVec.toNat_sub]
      exact Nat.mod_eq_of_lt (by omega)
    have hsome : r0 < r0 - c0 := by
      rw [BitVec.lt_def, hlow]
      omega
    have hupper : c1.toNat + 1 ≤ r1.toNat := by
      by_contra hlt
      have hmul := Nat.mul_le_mul_right (2 ^ F.fSize) (Nat.le_of_lt_succ (not_le.mp hlt))
      omega
    have hword : (r1 - c1 - (1 : F.Word)).toNat = r1.toNat - c1.toNat - 1 := by
      have hfirst : (r1 - c1).toNat = r1.toNat - c1.toNat :=
        BitVec.toNat_sub_of_le (BitVec.le_def.mpr (by omega))
      rw [BitVec.toNat_sub_of_le, hfirst, one_toNat]
      rw [BitVec.le_def, hfirst, one_toNat]
      omega
    rw [if_pos hsome, hword, hlow, Nat.sub_mul, Nat.sub_mul]
    have hmul := Nat.mul_le_mul_right (2 ^ F.fSize) hupper
    rw [Nat.succ_mul] at hmul
    omega

/-! ## The terms -/

/-- The leading bit is at its place, and the last bit is clear. -/
structure IsTerm (t : Term F) : Prop where
  low : 2 ^ (F.fSize - 3) ≤ t.mant1.toNat
  high : t.mant1.toNat < 2 ^ (F.fSize - 2)
  even : t.mant0.toNat % 2 = 0

namespace Term

def mant (t : Term F) : ℕ := pair t.mant1 t.mant0

noncomputable def magnitude (t : Term F) : ℝ := scaled2 F t.exp t.mant

noncomputable def value (t : Term F) : ℝ := signed t.sign t.magnitude

end Term

theorem three_le_fSize : 3 ≤ F.fSize := by
  have hsize := F.fSize_rnd
  have hge := F.rndSize_ge
  omega

theorem pair_bounds {k l : ℕ} {m1 m0 : F.Word} (hlow : 2 ^ k ≤ m1.toNat) (hhigh : m1.toNat < 2 ^ l) :
    2 ^ (k + F.fSize) ≤ pair m1 m0 ∧ pair m1 m0 < 2 ^ (l + F.fSize) := by
  have hm0 := m0.isLt
  have hmul := Nat.mul_le_mul_right (2 ^ F.fSize) hlow
  have hmul' := Nat.mul_le_mul_right (2 ^ F.fSize) (Nat.succ_le_of_lt hhigh)
  rw [Nat.succ_mul] at hmul'
  rw [pow_add, pow_add]
  unfold pair
  omega

theorem IsTerm.bounds {t : Term F} (h : IsTerm t) :
    2 ^ (F.fSize - 3 + F.fSize) ≤ t.mant ∧ t.mant < 2 ^ (F.fSize - 2 + F.fSize) :=
  pair_bounds h.low h.high

/-! ## The shift of the smaller term -/

theorem sticky_add {h l : ℕ} (heven : h % 2 = 0) (inexact : Bool) :
    sticky (h + l) inexact = h + sticky l inexact := by
  cases inexact with
  | false => rfl
  | true =>
    simp only [sticky, if_true, or_one]
    omega

theorem size_even : 2 ^ F.fSize % 2 = 0 := by
  have hthree := three_le_fSize (F := F)
  have hsplit : 2 ^ F.fSize = 2 * 2 ^ (F.fSize - 1) := by
    rw [← pow_succ']
    congr 1
    omega
  omega

/-- A shift within the lower word. -/
theorem fmaShift_low {d : ℕ} (hzero : d ≠ 0) (hd : d < F.fSize) (t : Term F) :
    pair (fmaShift t d).1 (fmaShift t d).2 = sticky (t.mant / 2 ^ d) (t.mant % 2 ^ d != 0) := by
  have hpos := Nat.two_pow_pos d
  have hsplit : 2 ^ F.fSize = 2 ^ (F.fSize - d) * 2 ^ d := by
    rw [← pow_add]
    congr 1
    omega
  have hmod : t.mant1.toNat * 2 ^ (F.fSize - d) % 2 ^ F.fSize =
      t.mant1.toNat % 2 ^ d * 2 ^ (F.fSize - d) := by
    rw [hsplit, Nat.mul_comm (2 ^ (F.fSize - d)), Nat.mul_mod_mul_right]
  have hcarry : t.mant0.toNat / 2 ^ d < 2 ^ (F.fSize - d) := by
    rw [Nat.div_lt_iff_lt_mul hpos, ← hsplit]
    exact t.mant0.isLt
  have hword : (t.mant1 <<< (F.fSize - d) ||| t.mant0 >>> d).toNat =
      t.mant1.toNat % 2 ^ d * 2 ^ (F.fSize - d) + t.mant0.toNat / 2 ^ d := by
    rw [BitVec.toNat_or, BitVec.toNat_shiftLeft, BitVec.toNat_ushiftRight, Nat.shiftLeft_eq, hmod,
      Nat.shiftRight_eq_div_pow, ← Nat.shiftLeft_eq, Nat.shiftLeft_add_eq_or_of_lt hcarry]
  have hmant : t.mant = t.mant0.toNat + t.mant1.toNat * 2 ^ (F.fSize - d) * 2 ^ d := by
    rw [Term.mant, pair, hsplit, Nat.mul_assoc]
    exact Nat.add_comm _ _
  have hquotient : t.mant / 2 ^ d = t.mant1.toNat / 2 ^ d * 2 ^ F.fSize +
      (t.mant1.toNat % 2 ^ d * 2 ^ (F.fSize - d) + t.mant0.toNat / 2 ^ d) := by
    have hdiv := Nat.div_add_mod' t.mant1.toNat (2 ^ d)
    rw [hmant, Nat.add_mul_div_right _ _ hpos]
    nth_rewrite 1 [← hdiv]
    rw [Nat.add_mul, hsplit]
    ring
  have hrest : t.mant % 2 ^ d = t.mant0.toNat % 2 ^ d := by
    rw [hmant, Nat.add_mul_mod_self_right]
  have heven : t.mant1.toNat / 2 ^ d * 2 ^ F.fSize % 2 = 0 := by
    rw [Nat.mul_mod, size_even, Nat.mul_zero]
  unfold fmaShift
  rw [if_neg (by omega), if_neg (by omega), if_neg (by omega), if_pos hzero, pair, or_flag_toNat,
    hword, and_mask_toNat _ hd, BitVec.toNat_ushiftRight, Nat.shiftRight_eq_div_pow, hquotient,
    hrest, sticky_add heven]

theorem pair_zero (m0 : F.Word) : pair 0 m0 = m0.toNat := by
  rw [pair, zero_toNat, Nat.zero_mul, Nat.zero_add]

/-- All bits are shifted out. -/
theorem fmaShift_large {d : ℕ} (hd : 2 * F.fSize ≤ d) (t : Term F) :
    pair (fmaShift t d).1 (fmaShift t d).2 = sticky (t.mant / 2 ^ d) (t.mant % 2 ^ d != 0) := by
  have hlt : t.mant < 2 ^ d := by
    have hbound : t.mant < 2 ^ (F.fSize + F.fSize) := by
      have hmul := Nat.mul_le_mul_right (2 ^ F.fSize) (Nat.succ_le_of_lt t.mant1.isLt)
      have hm0 := t.mant0.isLt
      rw [Nat.succ_mul] at hmul
      rw [Term.mant, pair, pow_add]
      omega
    exact hbound.trans_le (Nat.pow_le_pow_right (by decide) (by omega))
  have hflag : (if t.mant0 ||| t.mant1 = 0 then (0 : F.Word) else 1).toNat =
      sticky 0 (t.mant != 0) := by
    by_cases hzero : t.mant = 0
    · obtain ⟨h1, h0⟩ := pair_eq_zero hzero
      have hor : t.mant0 ||| t.mant1 = 0 := by
        rw [h1, h0]
        exact BitVec.or_zero
      rw [if_pos hor, hzero]
      rfl
    · have hor : t.mant0 ||| t.mant1 ≠ 0 := by
        intro h
        obtain ⟨h0, h1⟩ := BitVec.or_eq_zero_iff.mp h
        exact hzero (by rw [Term.mant, h0, h1]; exact pair_zero 0)
      rw [if_neg hor, bne_iff_ne.mpr hzero, one_toNat]
      rfl
  rw [fmaShift, if_pos hd, pair_zero, hflag, Nat.div_eq_of_lt hlt, Nat.mod_eq_of_lt hlt]

/-- The lower word is empty, and the upper one is shifted past its place. -/
theorem fmaShift_high {d : ℕ} {t : Term F} (hlow : F.fSize + 1 ≤ d) (hd : ¬ 2 * F.fSize ≤ d)
    (h : t.mant0 = 0) :
    pair (fmaShift t d).1 (fmaShift t d).2 = sticky (t.mant / 2 ^ d) (t.mant % 2 ^ d != 0) := by
  have hpos := Nat.two_pow_pos F.fSize
  have hsplit : 2 ^ d = 2 ^ (d - F.fSize) * 2 ^ F.fSize := by
    rw [← pow_add]
    congr 1
    omega
  have hmant : t.mant = t.mant1.toNat * 2 ^ F.fSize := by
    rw [Term.mant, pair, h, zero_toNat, Nat.add_zero]
  have hflag : (t.mant1.toNat % 2 ^ (d - F.fSize) * 2 ^ F.fSize != 0) =
      (t.mant1.toNat % 2 ^ (d - F.fSize) != 0) := by
    rw [Bool.eq_iff_iff, bne_iff_ne, bne_iff_ne, Nat.mul_ne_zero_iff]
    exact and_iff_left hpos.ne'
  rw [fmaShift, if_neg hd, if_pos hlow, pair_zero, rshiftRnd_toNat, hmant, hsplit,
    Nat.mul_div_mul_right _ _ hpos, Nat.mul_mod_mul_right, hflag]

/-- The shift of a mantissa, wherever no word is dropped. -/
theorem fmaShift_sticky {d : ℕ} {t : Term F} (h : t.mant0 = 0 ∨ d ≤ F.fSize ∨ 2 * F.fSize ≤ d) :
    pair (fmaShift t d).1 (fmaShift t d).2 = sticky (t.mant / 2 ^ d) (t.mant % 2 ^ d != 0) := by
  have hthree := three_le_fSize (F := F)
  by_cases hlarge : 2 * F.fSize ≤ d
  · exact fmaShift_large hlarge t
  by_cases hhigh : F.fSize + 1 ≤ d
  · exact fmaShift_high hhigh hlarge (h.resolve_right (by omega))
  by_cases hsame : d = F.fSize
  · obtain ⟨hdiv, hmod⟩ := pair_words t.mant1 t.mant0
    rw [fmaShift, if_neg hlarge, if_neg hhigh, if_pos hsame, pair_zero, or_flag_toNat, hsame, hdiv,
      hmod]
    rfl
  by_cases hzero : d = 0
  · rw [fmaShift, if_neg hlarge, if_neg hhigh, if_neg hsame, if_neg (not_not.mpr hzero), hzero,
      pow_zero, Nat.div_one, Nat.mod_one]
    rfl
  · exact fmaShift_low hzero (by omega) t

/-- The exact mantissa of a term shifted to the right. -/
noncomputable def Term.shifted (t : Term F) (d : ℕ) : ℝ := t.mant / 2 ^ d

theorem IsTerm.shifted_pos {t : Term F} (ht : IsTerm t) (d : ℕ) : 0 < t.shifted d := by
  have hmant : 0 < t.mant := lt_of_lt_of_le (Nat.two_pow_pos _) ht.bounds.1
  exact div_pos (by exact_mod_cast hmant) (pow_pos two_pos d)

/-- What is dropped with a whole word changes nothing at the grid of the other term. -/
theorem fmaShift_dropped {d : ℕ} {t : Term F} (ht : IsTerm t) (hlow : F.fSize + 1 ≤ d)
    (hd : ¬ 2 * F.fSize ≤ d) :
    Alike (2 ^ (F.fSize - 3)) (pair (fmaShift t d).1 (fmaShift t d).2 : ℝ) (t.shifted d) := by
  have hthree := three_le_fSize (F := F)
  have hword : pair (fmaShift t d).1 (fmaShift t d).2 =
      sticky (t.mant1.toNat / 2 ^ (d - F.fSize)) (t.mant1.toNat % 2 ^ (d - F.fSize) != 0) := by
    rw [fmaShift, if_neg hd, if_pos hlow, pair_zero, rshiftRnd_toNat]
  have hdivLt : t.mant1.toNat / 2 ^ (d - F.fSize) < 2 ^ (F.fSize - 4 + 1) := by
    rw [Nat.div_lt_iff_lt_mul (Nat.two_pow_pos _), ← pow_add]
    exact ht.high.trans_le (Nat.pow_le_pow_right (by decide) (by omega))
  have hquotient : (0 : ℝ) < t.mant1.toNat / 2 ^ (d - F.fSize) := by
    have hlead : 0 < t.mant1.toNat := lt_of_lt_of_le (Nat.two_pow_pos _) ht.low
    exact div_pos (by exact_mod_cast hlead) (pow_pos two_pos _)
  have hpos := (sticky_shift_alike t.mant1.toNat (d - F.fSize)).symm.pos hquotient
  have hlt : pair (fmaShift t d).1 (fmaShift t d).2 < 2 ^ (F.fSize - 3) := by
    have hexp : F.fSize - 4 + 1 = F.fSize - 3 := by
      have hsize := F.fSize_rnd
      have hge := F.rndSize_ge
      omega
    rw [hword, ← hexp]
    exact sticky_le_half hdivLt
  have hexactLt : t.shifted d < 2 ^ (F.fSize - 3) := by
    rw [Term.shifted, div_lt_iff₀ (pow_pos two_pos d), ← pow_add]
    have hnat : t.mant < 2 ^ (F.fSize - 3 + d) :=
      ht.bounds.2.trans_le (Nat.pow_le_pow_right (by decide) (by omega))
    exact_mod_cast hnat
  rw [← hword] at hpos
  apply Alike.of_between (pow_pos two_pos _) (b := 0) 0 (by simp) hpos
  · rw [zero_add]
    exact_mod_cast hlt
  · exact ht.shifted_pos d
  · rwa [zero_add]

theorem IsTerm.mant_even {t : Term F} (ht : IsTerm t) : t.mant % 2 = 0 := by
  rw [Term.mant, pair, Nat.add_mod, Nat.mul_mod, size_even, ht.even, Nat.mul_zero]

/-- The shifted term is as good as the exact one on a grid that the other term is on. -/
theorem fmaShift_alike {r t : Term F} (hr : IsTerm r) (ht : IsTerm t)
    (h : r.mant0 = 0 ∨ t.mant0 = 0) (d : ℕ) :
    ∃ j : ℕ, j + F.mantSize + 1 ≤ 2 * F.fSize - 4 ∧ (∃ n : ℤ, (r.mant : ℝ) = n * 2 ^ j) ∧
      Alike (2 ^ j) (pair (fmaShift t d).1 (fmaShift t d).2 : ℝ) (t.shifted d) := by
  have hsize := F.fSize_rnd
  have hge := F.rndSize_ge
  by_cases hwhole : t.mant0 = 0 ∨ d ≤ F.fSize ∨ 2 * F.fSize ≤ d
  · refine ⟨1, by omega, ⟨(r.mant / 2 : ℕ), ?_⟩, ?_⟩
    · have heven := hr.mant_even
      have hhalf : r.mant = r.mant / 2 * 2 ^ 1 := by omega
      exact_mod_cast hhalf
    · rw [fmaShift_sticky hwhole, pow_one]
      exact sticky_shift_alike t.mant d
  · have hr0 : r.mant0 = 0 := h.resolve_right (fun h0 => hwhole (Or.inl h0))
    refine ⟨F.fSize - 3, by omega, ⟨(r.mant1.toNat * 8 : ℕ), ?_⟩, ?_⟩
    · have hpow : 2 ^ F.fSize = 8 * 2 ^ (F.fSize - 3) := by
        rw [show 8 = 2 ^ 3 from rfl, ← pow_add]
        congr 1
        omega
      have hmant : r.mant = r.mant1.toNat * 8 * 2 ^ (F.fSize - 3) := by
        rw [Term.mant, pair, hr0, zero_toNat, hpow]
        ring
      exact_mod_cast hmant
    · exact fmaShift_dropped ht (by omega) (by omega)

/-- A shift by one bit is exact. -/
theorem fmaShift_exact {d : ℕ} {t : Term F} (ht : IsTerm t) (hd : d ≤ 1) :
    (pair (fmaShift t d).1 (fmaShift t d).2 : ℝ) = t.shifted d := by
  have hthree := three_le_fSize (F := F)
  have hmod : t.mant % 2 ^ d = 0 := by
    obtain rfl | rfl : d = 0 ∨ d = 1 := by omega
    · rw [pow_zero, Nat.mod_one]
    · exact ht.mant_even
  have hdiv := Nat.div_add_mod' t.mant (2 ^ d)
  rw [hmod, Nat.add_zero] at hdiv
  have hword : pair (fmaShift t d).1 (fmaShift t d).2 = t.mant / 2 ^ d := by
    rw [fmaShift_sticky (Or.inr (Or.inl (by omega))), hmod]
    rfl
  rw [hword, Term.shifted, eq_div_iff (pow_pos two_pos d).ne']
  exact_mod_cast hdiv

/-! ## The sum of two terms -/

/-- The order in which `fma_sf` puts the terms. -/
structure Dominates (r t : Term F) : Prop where
  exp : t.exp ≤ r.exp
  mant : t.exp = r.exp → t.mant ≤ r.mant

def Term.gap (r t : Term F) : ℕ := (r.exp - t.exp).toNat

theorem Dominates.scaled_shifted {r t : Term F} (h : Dominates r t) :
    scaled2 F r.exp (t.shifted (r.gap t)) = t.magnitude := by
  have hexp : r.exp - F.bias - F.imantSize =
      r.gap t + (t.exp - F.bias - F.imantSize) := by
    have hle := h.exp
    unfold Term.gap
    omega
  have hpos := pow_pos (two_pos (α := ℝ)) (r.gap t)
  rw [Term.magnitude, scaled2, scaled2, scaled, scaled, hexp, two_zpow_add, zpow_natCast,
    Term.shifted]
  field_simp

theorem Dominates.shifted_le {r t : Term F} (hr : IsTerm r) (ht : IsTerm t) (h : Dominates r t) :
    t.shifted (r.gap t) ≤ r.mant := by
  have hsize := F.fSize_rnd
  rw [Term.shifted, div_le_iff₀ (pow_pos two_pos _)]
  by_cases hgap : r.gap t = 0
  · have hle := h.mant (by have := h.exp; unfold Term.gap at hgap; omega)
    rw [hgap, pow_zero, mul_one]
    exact_mod_cast hle
  · have hnat : t.mant ≤ r.mant * 2 ^ r.gap t := by
      calc t.mant ≤ 2 ^ (F.fSize - 2 + F.fSize) := ht.bounds.2.le
        _ ≤ 2 ^ (F.fSize - 3 + F.fSize) * 2 ^ r.gap t := by
            rw [← pow_add]
            exact Nat.pow_le_pow_right (by decide) (by omega)
        _ ≤ r.mant * 2 ^ r.gap t := Nat.mul_le_mul_right _ hr.bounds.1
    exact_mod_cast hnat

/-- A term that is more than one bit smaller takes at most half away. -/
theorem IsTerm.shifted_small {d : ℕ} {t : Term F} (ht : IsTerm t) (hd : 2 ≤ d) :
    t.shifted d ≤ 2 ^ (2 * F.fSize - 4) := by
  have hsize := F.fSize_rnd
  have hge := F.rndSize_ge
  rw [Term.shifted, div_le_iff₀ (pow_pos two_pos d), ← pow_add]
  have hnat : t.mant ≤ 2 ^ (2 * F.fSize - 4 + d) :=
    ht.bounds.2.le.trans (Nat.pow_le_pow_right (by decide) (by omega))
  exact_mod_cast hnat

theorem small_of_pair {m1 m0 : F.Word} (h : pair m1 m0 < 2 ^ (F.fSize - 1 + F.fSize)) :
    Small m1 := by
  rw [pow_add] at h
  apply lt_of_mul_lt_mul_right (lt_of_le_of_lt _ h) (Nat.zero_le _)
  exact Nat.le_add_right _ _

/-- A mantissa of two words that has as many bits as one of the terms. -/
theorem pair_log {n k : ℕ} (h : 2 ^ k ≤ n) : (k : ℤ) ≤ Int.log 2 (n : ℝ) := by
  apply le_log
  rw [zpow_natCast]
  exact_mod_cast h

/-- The words of the smaller term in place of its exact mantissa `y`. -/
structure Aligned (r : Term F) (c1 c0 : F.Word) (y : ℝ) : Prop where
  alike : ∃ j : ℕ, j + F.mantSize + 1 ≤ 2 * F.fSize - 4 ∧ (∃ n : ℤ, (r.mant : ℝ) = n * 2 ^ j) ∧
    Alike (2 ^ j) (pair c1 c0 : ℝ) y
  exact : (pair c1 c0 : ℝ) = y ∨ y ≤ 2 ^ (2 * F.fSize - 4)
  le : y ≤ r.mant

theorem fmaShift_aligned {r t : Term F} (hr : IsTerm r) (ht : IsTerm t)
    (h : r.mant0 = 0 ∨ t.mant0 = 0) (hdom : Dominates r t) :
    Aligned r (fmaShift t (r.gap t)).1 (fmaShift t (r.gap t)).2 (t.shifted (r.gap t)) where
  alike := fmaShift_alike hr ht h _
  exact := by
    by_cases hgap : r.gap t ≤ 1
    · exact Or.inl (fmaShift_exact ht hgap)
    · exact Or.inr (ht.shifted_small (by omega))
  le := hdom.shifted_le hr ht

theorem Aligned.pair_le {r : Term F} {c1 c0 : F.Word} {y : ℝ} (h : Aligned r c1 c0 y) :
    pair c1 c0 ≤ r.mant := by
  obtain ⟨j, _, ⟨n, hn⟩, halike⟩ := h.alike
  have hreal := (halike.ge_iff n hn).mpr h.le
  exact_mod_cast hreal

section words

variable {r : Term F} {c1 c0 : F.Word} {y : ℝ} {s : Bool}

/-- The sum of the words is as good as the exact sum. -/
theorem sum_isRounded (hr : IsTerm r) (h : Aligned r c1 c0 y) :
    IsRounded F rm s (scaled2 F r.exp (r.mant + y)) fflags
      (normalize2Sf F s r.exp (r.mant1 + (c1 + if r.mant0 + c0 < c0 then 1 else 0))
        (r.mant0 + c0) rm fflags) := by
  obtain ⟨j, hj, ⟨n, hn⟩, halike⟩ := h.alike
  have hsize := F.fSize_rnd
  have hge := F.rndSize_ge
  have hle := h.pair_le
  have hbound := hr.bounds
  have hmant : pair r.mant1 r.mant0 = r.mant := rfl
  have hdouble : 2 ^ (F.fSize - 1 + F.fSize) = 2 * 2 ^ (F.fSize - 2 + F.fSize) := by
    rw [← pow_succ']
    congr 1
    omega
  have hfull : 2 ^ (F.fSize - 1 + F.fSize) ≤ 2 ^ (2 * F.fSize) :=
    Nat.pow_le_pow_right (by decide) (by omega)
  have hfit : pair r.mant1 r.mant0 + pair c1 c0 < 2 ^ (2 * F.fSize) := by omega
  have hpair := pair_add hfit
  have hsum : Alike (2 ^ (j : ℤ)) ((r.mant + pair c1 c0 : ℕ) : ℝ) (r.mant + y) := by
    rw [Nat.cast_add, zpow_natCast]
    exact halike.shift n hn
  rw [hmant] at hpair
  apply normalize2Sf_isRounded
  · apply small_of_pair
    rw [hpair]
    omega
  · rw [hpair]
    exact hsum
  · right
    have hlog := pair_log (hbound.1.trans (Nat.le_add_right r.mant (pair c1 c0)))
    rw [hpair]
    omega

theorem Aligned.difference_alike (h : Aligned r c1 c0 y) :
    ∃ j : ℕ, j + F.mantSize + 1 ≤ 2 * F.fSize - 4 ∧
      Alike (2 ^ j) ((r.mant - pair c1 c0 : ℕ) : ℝ) (r.mant - y) := by
  obtain ⟨j, hj, ⟨n, hn⟩, halike⟩ := h.alike
  refine ⟨j, hj, ?_⟩
  rw [Nat.cast_sub h.pair_le]
  exact halike.neg.shift n hn

theorem Aligned.difference_eq_zero (h : Aligned r c1 c0 y) :
    r.mant - pair c1 c0 = 0 ↔ (r.mant : ℝ) = y := by
  obtain ⟨j, _, halike⟩ := h.difference_alike
  have hzero := halike.eq_iff 0 (b := 0) (by simp)
  rw [Nat.cast_eq_zero] at hzero
  rw [hzero, sub_eq_zero]

/-- The difference of the words is as good as the exact one: where bits were shifted out,
no more than one leading bit cancels. -/
theorem difference_isRounded (hr : IsTerm r) (h : Aligned r c1 c0 y) :
    IsRounded F rm s (scaled2 F r.exp (r.mant - y)) fflags
      (normalize2Sf F s r.exp (r.mant1 - c1 - if r.mant0 < r.mant0 - c0 then 1 else 0)
        (r.mant0 - c0) rm fflags) := by
  obtain ⟨j, hj, halike⟩ := h.difference_alike
  have hsize := F.fSize_rnd
  have hge := F.rndSize_ge
  have hbound := hr.bounds
  have hle : pair c1 c0 ≤ pair r.mant1 r.mant0 := h.pair_le
  have hpair := pair_sub hle
  have hmant : pair r.mant1 r.mant0 = r.mant := rfl
  rw [hmant] at hpair
  apply normalize2Sf_isRounded (j := j)
  · have hpow : 2 ^ (F.fSize - 2 + F.fSize) ≤ 2 ^ (F.fSize - 1 + F.fSize) :=
      Nat.pow_le_pow_right (by decide) (by omega)
    apply small_of_pair
    rw [hpair]
    omega
  · rw [hpair, zpow_natCast]
    exact halike
  · rw [hpair]
    obtain hexact | hsmall := h.exact
    · left
      rw [Nat.cast_sub h.pair_le, hexact]
    · right
      have hlow : (2 : ℝ) ^ (2 * F.fSize - 4) + 2 ^ (2 * F.fSize - 4) ≤ r.mant := by
        have hnat : 2 ^ (2 * F.fSize - 4) + 2 ^ (2 * F.fSize - 4) ≤ r.mant := by
          rw [← two_mul, ← pow_succ']
          exact (Nat.pow_le_pow_right (by decide) (by omega)).trans hbound.1
        exact_mod_cast hnat
      have hgrid : ((2 ^ (2 * F.fSize - 4) : ℕ) : ℝ) =
          ((2 ^ (2 * F.fSize - 4 - j) : ℤ) : ℝ) * 2 ^ j := by
        push_cast
        rw [← pow_add]
        congr 1
        omega
      have hdiff : 2 ^ (2 * F.fSize - 4) ≤ r.mant - pair c1 c0 := by
        rw [← Nat.cast_le (α := ℝ), halike.le_iff _ hgrid]
        push_cast
        linarith
      have hlog := pair_log hdiff
      omega

theorem or_eq_zero_iff {m1 m0 : F.Word} : m0 ||| m1 = 0 ↔ pair m1 m0 = 0 := by
  constructor
  · intro h
    obtain ⟨h0, h1⟩ := BitVec.or_eq_zero_iff.mp h
    rw [h0, h1]
    exact pair_zero 0
  · intro h
    obtain ⟨h1, h0⟩ := pair_eq_zero h
    rw [h1, h0]
    exact BitVec.or_zero

end words

theorem Dominates.magnitude_le {r t : Term F} (hr : IsTerm r) (ht : IsTerm t)
    (h : Dominates r t) : t.magnitude ≤ r.magnitude := by
  rw [← h.scaled_shifted]
  exact mul_le_mul_of_nonneg_right
    (div_le_div_of_nonneg_right (h.shifted_le hr ht) (pow_pos two_pos _).le) (two_zpow_pos _).le

theorem Term.magnitude_nonneg (t : Term F) : 0 ≤ t.magnitude :=
  mul_nonneg (div_nonneg (Nat.cast_nonneg _) (pow_pos two_pos _).le) (two_zpow_pos _).le

theorem scaled2_inj {e : ℤ} {x y : ℝ} : scaled2 F e x = scaled2 F e y ↔ x = y := by
  unfold scaled2 scaled
  rw [mul_left_inj' (two_zpow_pos _).ne', div_left_inj' (pow_pos two_pos _).ne']

/-- The rounded sum of two terms in the order of their magnitudes. -/
theorem fmaSum_isRounded {r t : Term F} (hr : IsTerm r) (ht : IsTerm t)
    (h : r.mant0 = 0 ∨ t.mant0 = 0) (hdom : Dominates r t) :
    IsRounded F rm (sumSign rm r.sign t.sign (r.value + t.value)) |r.value + t.value| fflags
      (fmaSum r t rm fflags) := by
  have haligned := fmaShift_aligned hr ht h hdom
  have hshifted := hdom.scaled_shifted
  have hle := hdom.magnitude_le hr ht
  unfold fmaSum Term.value
  rw [← Term.gap]
  generalize fmaShift t (r.gap t) = w at haligned ⊢
  generalize t.shifted (r.gap t) = y at haligned hshifted
  obtain ⟨c1, c0⟩ := w
  dsimp only at haligned ⊢
  by_cases hsign : r.sign = t.sign
  · obtain ⟨habs, hsum⟩ := signed_same rm r.magnitude_nonneg t.magnitude_nonneg hsign
    have hexact : r.magnitude + t.magnitude = scaled2 F r.exp (r.mant + y) := by
      rw [← hshifted]
      unfold Term.magnitude scaled2
      rw [add_div, scaled_add]
    rw [if_pos hsign, habs, hsum, hexact]
    exact sum_isRounded hr haligned
  · obtain ⟨habs, hsum⟩ := signed_diff rm hle hsign
    have hexact : r.magnitude - t.magnitude = scaled2 F r.exp (r.mant - y) := by
      rw [← hshifted]
      unfold Term.magnitude scaled2
      rw [sub_div, scaled_sub]
    have hzero : (r.mant0 - c0 ||| (r.mant1 - c1 - if r.mant0 < r.mant0 - c0 then 1 else 0)) = 0 ↔
        r.magnitude = t.magnitude := by
      have hpair : pair c1 c0 ≤ pair r.mant1 r.mant0 := haligned.pair_le
      rw [or_eq_zero_iff, pair_sub hpair, ← hshifted, Term.magnitude, scaled2_inj]
      exact haligned.difference_eq_zero
    rw [if_neg hsign, habs, hsum, hexact]
    simp only [hzero]
    exact difference_isRounded hr haligned

/-! ## The product as a term -/

/-- Two words shifted to the left by one bit. -/
theorem pair_double {m1 m0 : F.Word} (h : m1.toNat < 2 ^ (F.fSize - 3)) :
    (m1 <<< 1 ||| m0 >>> (F.fSize - 1)).toNat = 2 * m1.toNat + m0.toNat / 2 ^ (F.fSize - 1) ∧
      (m0 <<< 1).toNat % 2 = 0 ∧
      pair (m1 <<< 1 ||| m0 >>> (F.fSize - 1)) (m0 <<< 1) = 2 * pair m1 m0 := by
  have hthree := three_le_fSize (F := F)
  have hsplit : 2 ^ F.fSize = 2 ^ (F.fSize - 1) * 2 := by
    rw [← pow_succ]
    congr 1
    omega
  have hsmall : 2 ^ (F.fSize - 3) ≤ 2 ^ (F.fSize - 1) :=
    Nat.pow_le_pow_right (by decide) (by omega)
  have hm0 := m0.isLt
  have hcarry : m0.toNat / 2 ^ (F.fSize - 1) < 2 ^ 1 := by
    rw [Nat.div_lt_iff_lt_mul (Nat.two_pow_pos _), pow_one, Nat.mul_comm, ← hsplit]
    exact hm0
  have hhigh : (m1 <<< 1 ||| m0 >>> (F.fSize - 1)).toNat =
      2 * m1.toNat + m0.toNat / 2 ^ (F.fSize - 1) := by
    rw [BitVec.toNat_or, shiftLeft_toNat (by omega), BitVec.toNat_ushiftRight,
      Nat.shiftRight_eq_div_pow, ← Nat.shiftLeft_eq, ← Nat.shiftLeft_add_eq_or_of_lt hcarry,
      Nat.shiftLeft_eq, pow_one, Nat.mul_comm]
  have hlow : (m0 <<< 1).toNat = m0.toNat % 2 ^ (F.fSize - 1) * 2 := by
    rw [BitVec.toNat_shiftLeft, Nat.shiftLeft_eq, pow_one, hsplit, Nat.mul_mod_mul_right]
  refine ⟨hhigh, by omega, ?_⟩
  have hdiv := Nat.div_add_mod' m0.toNat (2 ^ (F.fSize - 1))
  calc pair (m1 <<< 1 ||| m0 >>> (F.fSize - 1)) (m0 <<< 1)
      = 2 * (m1.toNat * 2 ^ F.fSize) + 2 * (m0.toNat / 2 ^ (F.fSize - 1) * 2 ^ (F.fSize - 1) +
          m0.toNat % 2 ^ (F.fSize - 1)) := by
        rw [pair, hhigh, hlow, hsplit]
        ring
    _ = 2 * pair m1 m0 := by
        rw [hdiv, pair]
        ring

theorem scaled2_product {ea eb : ℤ} {ma mb : ℕ} :
    scaled2 F (ea + eb - 2 ^ (F.expSize - 1) + 3)
        ((ma * 2 ^ F.rndSize * (mb * 2 ^ F.rndSize) : ℕ) : ℝ) =
      ma * 2 ^ (ea - F.bias - F.mantSize) * (mb * 2 ^ (eb - F.bias - F.mantSize)) := by
  rw [← scaled_product, scaled2, scaled, scaled]
  have hexp : ea + eb - 2 ^ (F.expSize - 1) + 3 - F.bias - F.imantSize =
      1 + (ea + eb - 2 ^ (F.expSize - 1) + 2 - F.bias - F.imantSize) := by ring
  rw [hexp, two_zpow_add]
  push_cast
  ring

theorem scaled2_double (e : ℤ) (n : ℕ) :
    scaled2 F (e - 1) ((2 * n : ℕ) : ℝ) = scaled2 F e n := by
  have hexp : e - F.bias - F.imantSize = 1 + (e - 1 - F.bias - F.imantSize) := by ring
  unfold scaled2 scaled
  rw [hexp, two_zpow_add]
  push_cast
  ring

section factors

variable {ea eb : ℤ} {ma mb : F.Word}

/-- Two unpacked mantissas, each raised by `F.rndSize` bits, fill the product to one of its
two leading places. -/
theorem product_bounds (hua : Unpacked a ea ma) (hub : Unpacked b eb mb) :
    2 ^ (F.fSize - 4 + F.fSize) ≤ ma.toNat * 2 ^ F.rndSize * (mb.toNat * 2 ^ F.rndSize) ∧
      ma.toNat * 2 ^ F.rndSize * (mb.toNat * 2 ^ F.rndSize) < 2 ^ (F.fSize - 2 + F.fSize) := by
  have hsize := F.fSize_rnd
  have hge := F.rndSize_ge
  constructor
  · calc 2 ^ (F.fSize - 4 + F.fSize)
        = 2 ^ F.mantSize * 2 ^ F.rndSize * (2 ^ F.mantSize * 2 ^ F.rndSize) := by
          rw [← pow_add, ← pow_add]
          congr 1
          omega
      _ ≤ _ := Nat.mul_le_mul (Nat.mul_le_mul_right _ hua.low) (Nat.mul_le_mul_right _ hub.low)
  · calc ma.toNat * 2 ^ F.rndSize * (mb.toNat * 2 ^ F.rndSize)
        < 2 ^ (F.mantSize + 1) * 2 ^ F.rndSize * (2 ^ (F.mantSize + 1) * 2 ^ F.rndSize) :=
          Nat.mul_lt_mul'' (Nat.mul_lt_mul_of_pos_right hua.high (Nat.two_pow_pos _))
            (Nat.mul_lt_mul_of_pos_right hub.high (Nat.two_pow_pos _))
      _ = 2 ^ (F.fSize - 2 + F.fSize) := by
          rw [← pow_add, ← pow_add]
          congr 1
          omega

theorem product_even (m n : ℕ) : m * 2 ^ F.rndSize * (n * 2 ^ F.rndSize) % 2 = 0 := by
  have hge := F.rndSize_ge
  have hdvd : 2 ∣ 2 ^ F.rndSize := dvd_pow_self 2 (by omega)
  exact Nat.mod_eq_zero_of_dvd ((hdvd.mul_left _).mul_right _)

theorem mulU_unpacked (hua : Unpacked a ea ma) (hub : Unpacked b eb mb) :
    pair (mulU (ma <<< F.rndSize) (mb <<< F.rndSize)).1
        (mulU (ma <<< F.rndSize) (mb <<< F.rndSize)).2 =
      ma.toNat * 2 ^ F.rndSize * (mb.toNat * 2 ^ F.rndSize) := by
  have hsize := F.fSize_rnd
  have hge := F.rndSize_ge
  have hA : (ma <<< F.rndSize).toNat = ma.toNat * 2 ^ F.rndSize := hua.shift (by omega)
  have hB : (mb <<< F.rndSize).toNat = mb.toNat * 2 ^ F.rndSize := hub.shift (by omega)
  rw [mulU_pair, hA, hB]

end factors

section raised

variable {m1 m0 : F.Word}

/-- The bounds on two words give those on the upper one. -/
theorem upper_bounds {i j : ℕ} (hlow : 2 ^ (i + F.fSize) ≤ pair m1 m0)
    (hhigh : pair m1 m0 < 2 ^ (j + F.fSize)) : 2 ^ i ≤ m1.toNat ∧ m1.toNat < 2 ^ j := by
  have hpos := Nat.two_pow_pos F.fSize
  rw [pow_add] at hlow hhigh
  rw [(pair_words m1 m0).1]
  exact ⟨(Nat.le_div_iff_mul_le hpos).mpr hlow, (Nat.div_lt_iff_lt_mul hpos).mpr hhigh⟩

theorem lower_even (heven : pair m1 m0 % 2 = 0) : m0.toNat % 2 = 0 := by
  have hbase := size_even (F := F)
  unfold pair at heven
  rw [Nat.add_mod, Nat.mul_mod, hbase, Nat.mul_zero] at heven
  omega

variable (m0) in
/-- One shift brings a leading bit from the lower of the two places to the upper. -/
theorem raised_bounds (hlow : 2 ^ (F.fSize - 4) ≤ m1.toNat) (hhigh : m1.toNat < 2 ^ (F.fSize - 3)) :
    2 ^ (F.fSize - 3) ≤ (m1 <<< 1 ||| m0 >>> (F.fSize - 1)).toNat ∧
      (m1 <<< 1 ||| m0 >>> (F.fSize - 1)).toNat < 2 ^ (F.fSize - 2) := by
  have hsize := F.fSize_rnd
  have hge := F.rndSize_ge
  have hcarry : m0.toNat / 2 ^ (F.fSize - 1) < 2 := by
    rw [Nat.div_lt_iff_lt_mul (Nat.two_pow_pos _), ← pow_succ',
      Nat.sub_add_cancel (by omega : 1 ≤ F.fSize)]
    exact m0.isLt
  have hpow3 : 2 ^ (F.fSize - 3) = 2 * 2 ^ (F.fSize - 4) := by
    rw [← pow_succ']
    congr 1
    omega
  have hpow2 : 2 ^ (F.fSize - 2) = 2 * 2 ^ (F.fSize - 3) := by
    rw [← pow_succ']
    congr 1
    omega
  rw [(pair_double hhigh).1]
  generalize m0.toNat / 2 ^ (F.fSize - 1) = carry at hcarry
  omega

end raised

/-- The product has its leading bit in place and the magnitude of the exact one. -/
theorem fmaProduct_term (ha : ¬ IsZero a) (hb : ¬ IsZero b) :
    IsTerm (fmaProduct a b) ∧ (fmaProduct a b).magnitude = magnitude a * magnitude b ∧
      (fmaProduct a b).sign = (signOf a ^^ signOf b) := by
  have hua := unpackNormal_unpacked ha
  have hub := unpackNormal_unpacked hb
  rw [hua.value, hub.value, ← scaled2_product]
  unfold fmaProduct
  generalize unpackNormal a = ua at hua ⊢
  generalize unpackNormal b = ub at hub ⊢
  obtain ⟨ea, ma⟩ := ua
  obtain ⟨eb, mb⟩ := ub
  dsimp only at hua hub ⊢
  have hsize := F.fSize_rnd
  have hge := F.rndSize_ge
  obtain ⟨hlow, hhigh⟩ := product_bounds hua hub
  have heven := product_even (F := F) ma.toNat mb.toNat
  rw [← mulU_unpacked hua hub] at hlow hhigh heven ⊢
  generalize mulU (ma <<< F.rndSize) (mb <<< F.rndSize) = m at hlow hhigh heven ⊢
  obtain ⟨m1, m0⟩ := m
  dsimp only at hlow hhigh heven ⊢
  obtain ⟨hm1low, hm1high⟩ := upper_bounds hlow hhigh
  split
  case isTrue h =>
    rw [BitVec.lt_def, bit_toNat (by omega)] at h
    obtain ⟨hraised, hbelow⟩ := raised_bounds m0 hm1low h
    obtain ⟨_, hlast, hdouble⟩ : _ ∧ _ ∧ pair (m1 <<< 1 ||| m0 >>> (F.fSize - 1)) (m0 <<< 1) =
      2 * pair m1 m0 := pair_double h
    refine ⟨⟨hraised, hbelow, hlast⟩, ?_, rfl⟩
    rw [Term.magnitude, Term.mant, hdouble]
    exact scaled2_double _ _
  case isFalse h =>
    rw [BitVec.lt_def, bit_toNat (by omega), not_lt] at h
    exact ⟨⟨h, hm1high, lower_even heven⟩, rfl, rfl⟩

/-- The addend has its leading bit in place and nothing in its lower word. -/
theorem fmaAddend_term (hc : ¬ IsZero c) :
    IsTerm (fmaAddend c) ∧ (fmaAddend c).magnitude = magnitude c ∧ (fmaAddend c).mant0 = 0 := by
  have huc := unpackNormal_unpacked hc
  rw [huc.value]
  unfold fmaAddend
  generalize unpackNormal c = uc at huc ⊢
  obtain ⟨ec, mc⟩ := uc
  dsimp only at huc ⊢
  have hsize := F.fSize_rnd
  have hge := F.rndSize_ge
  have himant := imantSize_eq (F := F)
  have hword : (mc <<< (F.rndSize - 1)).toNat = mc.toNat * 2 ^ (F.rndSize - 1) :=
    huc.shift (by omega)
  have hpow3 : 2 ^ (F.fSize - 3) = 2 ^ F.mantSize * 2 ^ (F.rndSize - 1) := by
    rw [← pow_add]
    congr 1
    omega
  have hpow2 : 2 ^ (F.fSize - 2) = 2 ^ (F.mantSize + 1) * 2 ^ (F.rndSize - 1) := by
    rw [← pow_add]
    congr 1
    omega
  refine ⟨⟨?_, ?_, rfl⟩, ?_, rfl⟩
  · dsimp only
    rw [hword, hpow3]
    exact Nat.mul_le_mul_right _ huc.low
  · dsimp only
    rw [hword, hpow2]
    exact Nat.mul_lt_mul_of_pos_right huc.high (Nat.two_pow_pos _)
  · have hexp : ec - F.bias - F.mantSize =
        ((F.rndSize - 1 : ℕ) : ℤ) + (ec + 1 - F.bias - F.imantSize) := by
      rw [himant]
      omega
    rw [Term.magnitude, Term.mant, pair, hword, zero_toNat, Nat.add_zero, scaled2, scaled, hexp,
      two_zpow_add, zpow_natCast]
    have hpos := pow_pos (two_pos (α := ℝ)) F.fSize
    push_cast
    field_simp

/-! ## The fused operation -/

theorem signed_mul (s t : Bool) (x y : ℝ) : signed (s ^^ t) (x * y) = signed s x * signed t y := by
  cases s <;> cases t <;> simp [signed]

theorem fmaProduct_value (ha : ¬ IsZero a) (hb : ¬ IsZero b) :
    (fmaProduct a b).value = value a * value b := by
  obtain ⟨_, hvalue, hsign⟩ := fmaProduct_term ha hb
  rw [Term.value, hvalue, hsign, signed_mul, ← value_eq, ← value_eq]

theorem fmaAddend_value (hc : ¬ IsZero c) : (fmaAddend c).value = value c := by
  obtain ⟨_, hvalue, _⟩ := fmaAddend_term hc
  rw [Term.value, hvalue, value_eq]
  rfl

theorem abs_signed (s : Bool) {x : ℝ} (hx : 0 ≤ x) : |signed s x| = x := by
  cases s with
  | false => exact abs_of_nonneg hx
  | true =>
    rw [signed, if_pos rfl, abs_neg]
    exact abs_of_nonneg hx

theorem sumSign_signed (s t : Bool) {x : ℝ} (hx : 0 < x) : sumSign rm s t (signed s x) = s := by
  cases s with
  | false =>
    have hpos : signed false x = x := rfl
    rw [sumSign, hpos, if_neg hx.ne']
    exact decide_eq_false (not_lt.mpr hx.le)
  | true =>
    have hneg : signed true x = -x := rfl
    rw [sumSign, hneg, if_neg (neg_ne_zero.mpr hx.ne')]
    exact decide_eq_true (neg_lt_zero.mpr hx)

/-- The product alone, where nothing is added to it. -/
theorem fmaProduct_alone (ha : ¬ IsZero a) (hb : ¬ IsZero b) (hc : IsZero c) :
    IsRounded F rm (sumSign rm (signOf a ^^ signOf b) (signOf c) (value a * value b + value c))
      |value a * value b + value c| fflags
      (normalizeSf F (fmaProduct a b).sign (fmaProduct a b).exp
        ((fmaProduct a b).mant1 ||| if (fmaProduct a b).mant0 = 0 then 0 else 1) rm fflags) := by
  obtain ⟨hterm, hvalue, hsign⟩ := fmaProduct_term ha hb
  have hpos : 0 < magnitude a * magnitude b :=
    mul_pos ((magnitude_nonneg a).lt_of_ne' (magnitude_eq_zero_iff.not.mpr ha))
      ((magnitude_nonneg b).lt_of_ne' (magnitude_eq_zero_iff.not.mpr hb))
  have hzero : value c = 0 := by
    rw [value_eq, magnitude_eq_zero_iff.mpr hc]
    cases signOf c <;> simp [signed]
  rw [hzero, add_zero, value_eq, value_eq, ← signed_mul, sumSign_signed _ _ hpos,
    abs_signed _ hpos.le, ← hsign, ← hvalue]
  generalize fmaProduct a b = t at hterm
  have hsize := F.fSize_rnd
  have hge := F.rndSize_ge
  have hmant : (t.mant1 ||| if t.mant0 = 0 then (0 : F.Word) else 1).toNat =
      sticky (t.mant / 2 ^ F.fSize) (t.mant % 2 ^ F.fSize != 0) := by
    obtain ⟨hhigh, hlow⟩ := pair_words t.mant1 t.mant0
    rw [or_flag_toNat, hhigh, hlow]
    rfl
  have hupper : t.mant / 2 ^ F.fSize = t.mant1.toNat := (pair_words t.mant1 t.mant0).1.symm
  apply normalizeSf_sticky
  · have hexp : F.fSize - 2 = F.fSize - 3 + 1 := by omega
    have hlt : sticky (t.mant / 2 ^ F.fSize) (t.mant % 2 ^ F.fSize != 0) < 2 ^ (F.fSize - 3 + 1) := by
      apply sticky_le_half
      rw [hupper, ← hexp]
      exact hterm.high
    rw [Small, hmant]
    exact hlt.trans_le (Nat.pow_le_pow_right (by decide) (by omega))
  · rw [hmant]
    exact sticky_shift_alike t.mant F.fSize
  · right
    rw [hmant, hupper]
    refine le_trans ?_ (hterm.low.trans (le_sticky _ _))
    exact Nat.pow_le_pow_right (by decide) (by omega)

theorem mant_le_of_upper {r t : Term F} (hle : t.mant1 ≤ r.mant1) (hlow : t.mant0 = 0) :
    t.mant ≤ r.mant := by
  rw [Term.mant, Term.mant, pair, hlow, zero_toNat, Nat.add_zero]
  exact (Nat.mul_le_mul_right _ (BitVec.le_def.mp hle)).trans (Nat.le_add_right _ _)

theorem mant_lt_of_upper {r t : Term F} (hlt : t.mant1 < r.mant1) : t.mant ≤ r.mant := by
  have hmul := Nat.mul_le_mul_right (2 ^ F.fSize) (Nat.succ_le_of_lt (BitVec.lt_def.mp hlt))
  have hm0 := t.mant0.isLt
  rw [Nat.succ_mul] at hmul
  unfold Term.mant pair
  omega

/-- The rounded sum of a product and an addend, neither factor being zero. -/
theorem fmaFinite_isRounded (ha : ¬ IsZero a) (hb : ¬ IsZero b) :
    IsRounded F rm (sumSign rm (signOf a ^^ signOf b) (signOf c) (value a * value b + value c))
      |value a * value b + value c| fflags (fmaFinite a b c rm fflags) := by
  unfold fmaFinite
  simp only [← isZero_iff]
  by_cases hc : IsZero c
  · rw [if_pos hc]
    exact fmaProduct_alone ha hb hc
  · obtain ⟨hr, _, hsign⟩ := fmaProduct_term ha hb
    obtain ⟨ht, _, hlow⟩ := fmaAddend_term hc
    have hsignC : (fmaAddend c).sign = signOf c := rfl
    rw [if_neg hc, ← fmaProduct_value ha hb, ← fmaAddend_value hc, ← hsign, ← hsignC]
    split
    case isTrue h =>
      apply fmaSum_isRounded hr ht (Or.inr hlow)
      refine ⟨by omega, fun hexp => ?_⟩
      have hupper := (h.resolve_left (by omega)).2
      exact mant_le_of_upper hupper hlow
    case isFalse h =>
      rw [sumSign_comm, add_comm]
      apply fmaSum_isRounded ht hr (Or.inl hlow)
      refine ⟨by omega, fun hexp => ?_⟩
      have hupper : ¬ (fmaAddend c).mant1 ≤ (fmaProduct a b).mant1 := fun hle =>
        h (Or.inr ⟨hexp, hle⟩)
      exact mant_lt_of_upper (BitVec.not_le.mp hupper)

/-- What the standard asks of a fused product and sum, and what is done with a NaN. -/
structure IsFused (rm : RoundingMode) (a b c : F.Word) (fflags : BitVec 32) (r : F.Result) :
    Prop where
  nan : IsNan a ∨ IsNan b ∨ IsNan c →
    r = nanResult F (decide (IsSignaling a ∨ IsSignaling b ∨ IsSignaling c)) fflags
  noProduct : ¬ IsNan c → IsInfinite a ∧ IsZero b ∨ IsZero a ∧ IsInfinite b →
    r = invalidResult F fflags
  infinite : IsInfinite a ∧ ¬ IsNan b ∧ ¬ IsZero b ∨ IsInfinite b ∧ ¬ IsNan a ∧ ¬ IsZero a →
    ¬ IsNan c → r =
      if IsInfinite c ∧ signOf c ≠ (signOf a ^^ signOf b) then invalidResult F fflags
      else (infinity F (signOf a ^^ signOf b), fflags)
  addend : IsFinite a → IsFinite b → IsInfinite c → r = (infinity F (signOf c), fflags)
  finite : IsFinite a → IsFinite b → IsFinite c →
    IsRounded F rm (sumSign rm (signOf a ^^ signOf b) (signOf c) (value a * value b + value c))
      |value a * value b + value c| fflags r

theorem fmaSf_nan (h : IsNan a ∨ IsNan b ∨ IsNan c) :
    fmaSf a b c rm fflags =
      nanResult F (decide (IsSignaling a ∨ IsSignaling b ∨ IsSignaling c)) fflags := by
  have hexp : expOf a = F.expMask ∨ expOf b = F.expMask ∨ expOf c = F.expMask :=
    h.imp And.left (Or.imp And.left And.left)
  have hnan : isnanSf a = true ∨ isnanSf b = true ∨ isnanSf c = true := by
    rwa [isnanSf_iff, isnanSf_iff, isnanSf_iff]
  unfold fmaSf
  dsimp only
  rw [if_pos hexp, if_pos hnan]
  exact nanResult_eq (by rw [issignanSf_iff, issignanSf_iff, issignanSf_iff])

theorem infinite_iff (h : ¬ IsNan a) : expOf a = F.expMask ↔ IsInfinite a :=
  ⟨fun hmask => (infinite_or_nan hmask).resolve_right h, And.left⟩

/-- The operands are numbers, of which one is infinite. -/
theorem fmaSf_infinite (h : IsInfinite a ∨ IsInfinite b ∨ IsInfinite c) (ha : ¬ IsNan a)
    (hb : ¬ IsNan b) (hc : ¬ IsNan c) :
    fmaSf a b c rm fflags =
      if IsInfinite a ∧ IsZero b ∨ IsInfinite b ∧ IsZero a ∨
          (IsInfinite a ∨ IsInfinite b) ∧ IsInfinite c ∧ (signOf a ^^ signOf b) ≠ signOf c then
        invalidResult F fflags
      else if IsInfinite c then (infinity F (signOf c), fflags)
      else (infinity F (signOf a ^^ signOf b), fflags) := by
  have hexp : expOf a = F.expMask ∨ expOf b = F.expMask ∨ expOf c = F.expMask :=
    h.imp And.left (Or.imp And.left And.left)
  have hnan : ¬ (isnanSf a = true ∨ isnanSf b = true ∨ isnanSf c = true) := by
    rw [isnanSf_iff, isnanSf_iff, isnanSf_iff]
    exact fun h => h.elim ha fun h => h.elim hb hc
  unfold fmaSf
  dsimp only
  rw [if_pos hexp, if_neg hnan]
  simp only [infinite_iff ha, infinite_iff hb, infinite_iff hc, ← isZero_iff]
  rfl

/-- One factor is zero. -/
theorem fmaSf_zero (h : IsZero a ∨ IsZero b) (ha : IsFinite a) (hb : IsFinite b)
    (hc : IsFinite c) :
    IsRounded F rm (sumSign rm (signOf a ^^ signOf b) (signOf c) (value a * value b + value c))
      |value a * value b + value c| fflags (fmaSf a b c rm fflags) := by
  have hexp : ¬ (expOf a = F.expMask ∨ expOf b = F.expMask ∨ expOf c = F.expMask) :=
    fun h => h.elim ha fun h => h.elim hb hc
  have hproduct : value a * value b = 0 := by
    rw [value_eq, value_eq, ← signed_mul]
    have hzero : magnitude a * magnitude b = 0 :=
      mul_eq_zero.mpr (h.imp magnitude_eq_zero_iff.mpr magnitude_eq_zero_iff.mpr)
    rw [hzero]
    cases signOf a ^^ signOf b <;> simp [signed]
  rw [hproduct, zero_add, value_eq c, abs_signed _ (magnitude_nonneg c)]
  unfold fmaSf
  dsimp only
  rw [if_neg hexp]
  simp only [← isZero_iff]
  rw [if_pos h]
  by_cases hzero : IsZero c
  · have hsum : sumSign rm (signOf a ^^ signOf b) (signOf c) (signed (signOf c) (magnitude c)) =
        if signOf c ≠ (signOf a ^^ signOf b) then decide (rm = .rdn) else signOf a ^^ signOf b := by
      rw [magnitude_eq_zero_iff.mpr hzero]
      have hsigned : signed (signOf c) (0 : ℝ) = 0 := by cases signOf c <;> simp [signed]
      rw [hsigned, sumSign, if_pos rfl]
      by_cases hsign : (signOf a ^^ signOf b) = signOf c
      · rw [if_pos hsign, if_neg (not_not.mpr hsign.symm)]
      · rw [if_neg hsign, if_pos (Ne.symm hsign)]
    rw [if_pos hzero, hsum, magnitude_eq_zero_iff.mpr hzero]
    exact isRounded_zero
  · have hpos : 0 < magnitude c :=
      (magnitude_nonneg c).lt_of_ne' (magnitude_eq_zero_iff.not.mpr hzero)
    rw [if_neg hzero, sumSign_comm, sumSign_signed _ _ hpos]
    exact isRounded_self hc

theorem fmaSf_finite (ha : IsFinite a) (hb : IsFinite b) (hc : IsFinite c) :
    IsRounded F rm (sumSign rm (signOf a ^^ signOf b) (signOf c) (value a * value b + value c))
      |value a * value b + value c| fflags (fmaSf a b c rm fflags) := by
  by_cases hzero : IsZero a ∨ IsZero b
  · exact fmaSf_zero hzero ha hb hc
  · have hexp : ¬ (expOf a = F.expMask ∨ expOf b = F.expMask ∨ expOf c = F.expMask) :=
      fun h => h.elim ha fun h => h.elim hb hc
    unfold fmaSf
    dsimp only
    rw [if_neg hexp]
    simp only [← isZero_iff]
    rw [if_neg hzero]
    exact fmaFinite_isRounded (fun h => hzero (Or.inl h)) fun h => hzero (Or.inr h)

/-- `fma_sf` rounds once, for all operands and in all rounding modes. -/
theorem fmaSf_isFused (a b c : F.Word) (rm : RoundingMode) (fflags : BitVec 32) :
    IsFused rm a b c fflags (fmaSf a b c rm fflags) where
  nan := fmaSf_nan
  noProduct := by
    rintro hc (⟨ha, hb⟩ | ⟨ha, hb⟩)
    · rw [fmaSf_infinite (Or.inl ha) ha.not_nan (finite_zero hb).not_nan hc,
        if_pos (Or.inl ⟨ha, hb⟩)]
    · rw [fmaSf_infinite (Or.inr (Or.inl hb)) (finite_zero ha).not_nan hb.not_nan hc,
        if_pos (Or.inr (Or.inl ⟨hb, ha⟩))]
  infinite := by
    intro h hc
    have hnan : ¬ IsNan a ∧ ¬ IsNan b :=
      h.elim (fun h => ⟨h.1.not_nan, h.2.1⟩) fun h => ⟨h.2.1, h.1.not_nan⟩
    have hinf : IsInfinite a ∨ IsInfinite b := h.imp And.left And.left
    have hproduct : ¬ (IsInfinite a ∧ IsZero b) ∧ ¬ (IsInfinite b ∧ IsZero a) := by
      refine ⟨fun hz => ?_, fun hz => ?_⟩
      · exact h.elim (fun h => h.2.2 hz.2) fun h => h.1.not_zero hz.2
      · exact h.elim (fun h => h.1.not_zero hz.2) fun h => h.2.2 hz.2
    rw [fmaSf_infinite (hinf.imp id Or.inl) hnan.1 hnan.2 hc]
    by_cases hcancel : IsInfinite c ∧ signOf c ≠ (signOf a ^^ signOf b)
    · rw [if_pos hcancel, if_pos (Or.inr (Or.inr ⟨hinf, hcancel.1, hcancel.2.symm⟩))]
    · rw [if_neg hcancel, if_neg]
      · by_cases hinfC : IsInfinite c
        · have hsign : signOf c = (signOf a ^^ signOf b) :=
            not_not.mp fun hne => hcancel ⟨hinfC, hne⟩
          rw [if_pos hinfC, hsign]
        · rw [if_neg hinfC]
      · rintro (hz | hz | hz)
        · exact hproduct.1 hz
        · exact hproduct.2 hz
        · exact hcancel ⟨hz.2.1, hz.2.2.symm⟩
  addend := by
    intro ha hb hc
    rw [fmaSf_infinite (Or.inr (Or.inr hc)) ha.not_nan hb.not_nan hc.not_nan, if_neg, if_pos hc]
    rintro (hz | hz | hz)
    · exact ha hz.1.1
    · exact hb hz.1.1
    · exact hz.1.elim (fun h => ha h.1) fun h => hb h.1
  finite := fmaSf_finite

end SoftFloat
end Riscbox

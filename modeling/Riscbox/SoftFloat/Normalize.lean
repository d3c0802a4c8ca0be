import Riscbox.SoftFloat.RoundPack

/-!
# Normalizing a mantissa before it is rounded

A mantissa with too few bits below the kept ones is still good enough as long as it is
exact, or its sticky bit stays below the last one that rounding looks at.
-/

namespace Riscbox
namespace SoftFloat

open Rounding Format

attribute [local instance] atLeastTwo

variable {F : Format} {rm : RoundingMode} {s : Bool} {fflags : BitVec 32} {e : ℤ} {m : F.Word}

/-! ## Zero -/

theorem packMant_zero : packMant e (0 : F.Word) = 0 := by
  unfold packMant
  split
  · rw [← toNat_eq_zero_iff, rshiftRnd_toNat, zero_toNat, Nat.zero_div, Nat.zero_mod]
    rfl
  · rfl

theorem small_zero : Small (0 : F.Word) := Nat.two_pow_pos _

theorem roundMant_zero : roundMant s (0 : F.Word) rm = 0 := by
  have hround := roundMant_eq rm s (small_zero (F := F))
  rw [zero_toNat, Nat.cast_zero, zero_div, roundInt_zero] at hround
  exact toNat_eq_zero_iff.mp (by exact_mod_cast hround)

theorem roundPackSf_zero : roundPackSf F s e 0 rm fflags = (packSf F s 0 0, fflags) := by
  have hbits : rndBits (0 : F.Word) = 0 := BitVec.zero_and
  have hmant : (0 : F.Word) ≤ F.mantMask := (le_mantMask_iff 0).mpr (Nat.two_pow_pos _)
  have hpack : (if e ≤ 0 then rshiftRnd (0 : F.Word) (1 - e).toNat else 0) = 0 := packMant_zero
  unfold roundPackSf
  simp only [hpack, hbits, roundMant_zero, hmant, ne_eq, not_true_eq_false, and_false, if_false,
    if_true]

theorem rounded_zero : rounded F rm s 0 = 0 := roundFloat_zero

theorem magnitude_zero : magnitude (packSf F s 0 0) = 0 := by
  have h := magnitude_packSf_zero (F := F) (s := s) (m := 0) (Nat.two_pow_pos _)
  rw [zero_toNat, Nat.cast_zero (R := ℝ), zero_mul] at h
  exact h

theorem isFinite_packSf_zero (m : F.Word) : IsFinite (packSf F s 0 m) := by
  have hexp := expOf_packSf (s := s) (Nat.zero_le F.expMask) m
  have hmask := F.expMask_ge
  rw [IsFinite]
  exact ne_of_eq_of_ne hexp (by omega)

theorem isRounded_zero : IsRounded F rm s 0 fflags (packSf F s 0 0, fflags) := by
  constructor
  · intro _
    refine ⟨isFinite_packSf_zero _, signOf_packSf (Nat.zero_le _) _, ?_, ?_⟩
    · rw [rounded_zero]
      exact magnitude_zero
    · rw [roundingFlags, if_pos rounded_zero]
      exact BitVec.or_zero.symm
  · intro hover
    rw [Overflows, rounded_zero] at hover
    exact absurd hover (not_le.mpr (two_zpow_pos _))

/-! ## One word -/

theorem scaled_shift (e : ℤ) (k : ℕ) (y : ℝ) : scaled F (e - k) (y * 2 ^ k) = scaled F e y := by
  rw [scaled, scaled, ← zpow_natCast, mul_assoc, ← two_zpow_add]
  congr 2
  ring

/-- The leading bit of a mantissa shifted to `IMANT_SIZE`. -/
theorem normalized (hm : Small m) (hne : m ≠ 0) :
    Normal (m <<< (clz m - 1)) ∧ (m <<< (clz m - 1)).toNat = m.toNat * 2 ^ (clz m - 1) := by
  obtain ⟨hclz, hlow, hhigh⟩ := clz_bounds hne
  have hsize := fSize_half (F := F)
  have hfull := two_pow_half (F := F)
  have hone : 1 ≤ clz m := by
    by_contra hzero
    have hlead : F.fSize - 1 - clz m = F.fSize - 1 := by omega
    rw [hlead] at hlow
    exact absurd hm (not_lt.mpr hlow)
  have hlow' : 2 ^ F.imantSize ≤ m.toNat * 2 ^ (clz m - 1) := by
    calc 2 ^ F.imantSize = 2 ^ (F.fSize - 1 - clz m) * 2 ^ (clz m - 1) := by
          rw [← pow_add]
          congr 1
          omega
      _ ≤ m.toNat * 2 ^ (clz m - 1) := Nat.mul_le_mul_right _ hlow
  have hhigh' : m.toNat * 2 ^ (clz m - 1) < 2 ^ (F.fSize - 1) := by
    calc m.toNat * 2 ^ (clz m - 1) < 2 ^ (F.fSize - clz m) * 2 ^ (clz m - 1) :=
          Nat.mul_lt_mul_of_pos_right hhigh (Nat.two_pow_pos _)
      _ = 2 ^ (F.fSize - 1) := by
          rw [← pow_add]
          congr 1
          omega
  have hshift : (m <<< (clz m - 1)).toNat = m.toNat * 2 ^ (clz m - 1) := by
    rw [BitVec.toNat_shiftLeft, Nat.shiftLeft_eq]
    exact Nat.mod_eq_of_lt (by omega)
  exact ⟨⟨by rwa [hshift], by rwa [hshift]⟩, hshift⟩

theorem normalizeSf_isRounded (hm : Small m) :
    IsRounded F rm s (scaled F e m.toNat) fflags (normalizeSf F s e m rm fflags) := by
  unfold normalizeSf
  rw [imantSize_gap]
  dsimp only
  by_cases hne : m = 0
  · have hshift : (0 : F.Word) <<< (clz (0 : F.Word) - 1) = 0 := BitVec.zero_shiftLeft _
    rw [hne, hshift, roundPackSf_zero, zero_toNat, Nat.cast_zero, scaled, zero_mul]
    exact isRounded_zero
  · obtain ⟨hnormal, hvalue⟩ := normalized hm hne
    have hround : IsRounded F rm s _ fflags
        (roundPackSf F s (e - (clz m - 1 : ℕ)) (m <<< (clz m - 1)) rm fflags) :=
      roundPackSf_isRounded hnormal
    rw [hvalue, Nat.cast_mul, Nat.cast_pow, Nat.cast_ofNat, scaled_shift] at hround
    exact hround

theorem scaled_alike {y z : ℝ} {j : ℤ} (h : Alike (2 ^ j) y z) :
    Alike (2 ^ (j + (e - F.bias - F.imantSize))) (scaled F e y) (scaled F e z) :=
  h.scale_zpow _

theorem log_scaled {y : ℝ} (hy : 0 < y) :
    Int.log 2 (scaled F e y) = Int.log 2 y + (e - F.bias - F.imantSize) := by
  have hpos := two_zpow_pos (K := ℝ) (e - F.bias - F.imantSize)
  apply log_eq
  · rw [two_zpow_add]
    exact mul_le_mul_of_nonneg_right (zpow_log_le hy) hpos.le
  · have hexp : Int.log 2 y + (e - F.bias - F.imantSize) + 1 =
        Int.log 2 y + 1 + (e - F.bias - F.imantSize) := by ring
    rw [hexp, two_zpow_add]
    exact mul_lt_mul_of_pos_right (lt_zpow_log y) hpos

/-- A right result for a mantissa is one for what it stands for. -/
theorem IsRounded.scaled_alike {y z : ℝ} {j : ℤ} {r : F.Result}
    (h : IsRounded F rm s (scaled F e y) fflags r) (hy : 0 < y)
    (hj : j + F.mantSize + 1 ≤ Int.log 2 y) (halike : Alike (2 ^ j) y z) :
    IsRounded F rm s (scaled F e z) fflags r := by
  have hlog := log_scaled (F := F) (e := e) hy
  refine h.alike (mul_pos hy (two_zpow_pos _)) ?_ (SoftFloat.scaled_alike halike)
  rw [scaled] at hlog
  omega

theorem le_log {k : ℤ} {y : ℝ} (h : 2 ^ k ≤ y) : k ≤ Int.log 2 y :=
  (Int.zpow_le_iff_le_log one_lt_two ((two_zpow_pos k).trans_le h)).mp (by exact_mod_cast h)

/-- `normalize_sf` of a mantissa whose last bit may be sticky. -/
theorem normalizeSf_sticky {y : ℝ} (hm : Small m) (halike : Alike 2 (m.toNat : ℝ) y)
    (hbits : (m.toNat : ℝ) = y ∨ 2 ^ (F.mantSize + 2) ≤ m.toNat) :
    IsRounded F rm s (scaled F e y) fflags (normalizeSf F s e m rm fflags) := by
  have hround : IsRounded F rm s _ fflags (normalizeSf F s e m rm fflags) :=
    normalizeSf_isRounded hm
  obtain hexact | hlong := hbits
  · rwa [hexact] at hround
  · have hpos : 0 < m.toNat := lt_of_lt_of_le (Nat.two_pow_pos _) hlong
    have hlog : (1 : ℤ) + F.mantSize + 1 ≤ Int.log 2 (m.toNat : ℝ) := by
      apply le_log
      have hcast : ((2 ^ (F.mantSize + 2) : ℕ) : ℝ) ≤ m.toNat := by exact_mod_cast hlong
      have hexp : (1 : ℤ) + F.mantSize + 1 = ((F.mantSize + 2 : ℕ) : ℤ) := by
        push_cast
        ring
      rw [hexp, zpow_natCast]
      exact_mod_cast hcast
    exact hround.scaled_alike (by exact_mod_cast hpos) hlog (by simpa using halike)

/-! ## Two words -/

/-- The number in two words. -/
def pair (m1 m0 : F.Word) : ℕ := m1.toNat * 2 ^ F.fSize + m0.toNat

theorem pair_eq_zero {m1 m0 : F.Word} (h : pair m1 m0 = 0) : m1 = 0 ∧ m0 = 0 := by
  have hpos := Nat.two_pow_pos F.fSize
  unfold pair at h
  have h0 : m0.toNat = 0 := by omega
  have h1 : m1.toNat * 2 ^ F.fSize = 0 := by omega
  exact ⟨toNat_eq_zero_iff.mp ((Nat.mul_eq_zero.mp h1).resolve_right hpos.ne'),
    toNat_eq_zero_iff.mp h0⟩

/-- The leading zeros of two words. -/
def clz2 (m1 m0 : F.Word) : ℕ := if m1 = 0 then F.fSize + clz m0 else clz m1

/-- The upper word of two words shifted to the left, with a sticky last bit. -/
def shifted2 (k : ℕ) (m1 m0 : F.Word) : F.Word :=
  if k = 0 then m1 ||| if m0 = 0 then 0 else 1
  else if k < F.fSize then
    m1 <<< k ||| m0 >>> (F.fSize - k) ||| if m0 <<< k = 0 then 0 else 1
  else m0 <<< (k - F.fSize)

theorem clz2_bounds {m1 m0 : F.Word} (hne : pair m1 m0 ≠ 0) :
    clz2 m1 m0 < 2 * F.fSize ∧ 2 ^ (2 * F.fSize - 1 - clz2 m1 m0) ≤ pair m1 m0 ∧
      pair m1 m0 < 2 ^ (2 * F.fSize - clz2 m1 m0) := by
  have hlt := m0.isLt
  unfold clz2
  by_cases h1 : m1 = 0
  · have h0 : m0 ≠ 0 := by
      rintro rfl
      rw [h1] at hne
      exact hne (by simp [pair])
    have hpair : pair m1 m0 = m0.toNat := by simp [pair, h1]
    obtain ⟨hclz, hlow, hhigh⟩ := clz_bounds h0
    have hlead : 2 * F.fSize - 1 - (F.fSize + clz m0) = F.fSize - 1 - clz m0 := by omega
    have htop : 2 * F.fSize - (F.fSize + clz m0) = F.fSize - clz m0 := by omega
    rw [if_pos h1, hpair, hlead, htop]
    exact ⟨by omega, hlow, hhigh⟩
  · obtain ⟨hclz, hlow, hhigh⟩ := clz_bounds h1
    have hlead : 2 * F.fSize - 1 - clz m1 = F.fSize - 1 - clz m1 + F.fSize := by omega
    have htop : 2 * F.fSize - clz m1 = F.fSize - clz m1 + F.fSize := by omega
    rw [if_neg h1, hlead, htop, pow_add, pow_add, pair]
    refine ⟨by omega, (Nat.mul_le_mul_right _ hlow).trans (Nat.le_add_right _ _), ?_⟩
    calc m1.toNat * 2 ^ F.fSize + m0.toNat < m1.toNat * 2 ^ F.fSize + 2 ^ F.fSize :=
          Nat.add_lt_add_left hlt _
      _ = (m1.toNat + 1) * 2 ^ F.fSize := by ring
      _ ≤ 2 ^ (F.fSize - clz m1) * 2 ^ F.fSize := Nat.mul_le_mul_right _ hhigh

theorem two_size : 2 ^ (2 * F.fSize) = 2 ^ F.fSize * 2 ^ F.fSize := by rw [two_mul, pow_add]

theorem shifted2_low {k : ℕ} {m1 m0 : F.Word} (hzero : k ≠ 0) (hk : k < F.fSize)
    (hfit : pair m1 m0 * 2 ^ k < 2 ^ (2 * F.fSize)) :
    (shifted2 k m1 m0).toNat = sticky (pair m1 m0 * 2 ^ k / 2 ^ F.fSize)
      (pair m1 m0 * 2 ^ k % 2 ^ F.fSize != 0) := by
  have hpos := Nat.two_pow_pos F.fSize
  have hsplit : 2 ^ F.fSize = 2 ^ (F.fSize - k) * 2 ^ k := by
    rw [← pow_add]
    congr 1
    omega
  have hproduct : pair m1 m0 * 2 ^ k = m0.toNat * 2 ^ k + m1.toNat * 2 ^ k * 2 ^ F.fSize := by
    rw [pair]
    ring
  have hupper : m1.toNat * 2 ^ k < 2 ^ F.fSize := by
    rw [two_size, hproduct] at hfit
    exact lt_of_mul_lt_mul_right (lt_of_le_of_lt (Nat.le_add_left _ _) hfit) hpos.le
  have hcarry : m0.toNat * 2 ^ k / 2 ^ F.fSize = m0.toNat / 2 ^ (F.fSize - k) := by
    rw [hsplit, Nat.mul_div_mul_right _ _ (Nat.two_pow_pos k)]
  have hcarryLt : m0.toNat / 2 ^ (F.fSize - k) < 2 ^ k := by
    rw [Nat.div_lt_iff_lt_mul (Nat.two_pow_pos _), Nat.mul_comm, ← hsplit]
    exact m0.isLt
  have hword : (m1 <<< k ||| m0 >>> (F.fSize - k)).toNat =
      m1.toNat * 2 ^ k + m0.toNat / 2 ^ (F.fSize - k) := by
    rw [BitVec.toNat_or, BitVec.toNat_shiftLeft, BitVec.toNat_ushiftRight,
      Nat.shiftRight_eq_div_pow, Nat.mod_eq_of_lt (by rwa [Nat.shiftLeft_eq]),
      ← Nat.shiftLeft_add_eq_or_of_lt hcarryLt, Nat.shiftLeft_eq]
  have hlow : (m0 <<< k).toNat = m0.toNat * 2 ^ k % 2 ^ F.fSize := by
    rw [BitVec.toNat_shiftLeft, Nat.shiftLeft_eq]
  rw [shifted2, if_neg hzero, if_pos hk, or_flag_toNat, hword, hproduct,
    Nat.add_mul_div_right _ _ hpos, Nat.add_mul_mod_self_right, hcarry, hlow, Nat.add_comm]

theorem shifted2_high {k : ℕ} {m1 m0 : F.Word} (hk : F.fSize ≤ k)
    (hfit : pair m1 m0 * 2 ^ k < 2 ^ (2 * F.fSize)) :
    (shifted2 k m1 m0).toNat = pair m1 m0 * 2 ^ k / 2 ^ F.fSize ∧
      pair m1 m0 * 2 ^ k % 2 ^ F.fSize = 0 := by
  have hpos := Nat.two_pow_pos F.fSize
  have hsize := F.fSize_eq
  have hsplit : 2 ^ k = 2 ^ (k - F.fSize) * 2 ^ F.fSize := by
    rw [← pow_add]
    congr 1
    omega
  rw [two_size, hsplit, ← Nat.mul_assoc] at hfit
  have hshift : pair m1 m0 * 2 ^ (k - F.fSize) < 2 ^ F.fSize := lt_of_mul_lt_mul_right hfit hpos.le
  have hpair : pair m1 m0 < 2 ^ F.fSize :=
    lt_of_le_of_lt (Nat.le_mul_of_pos_right _ (Nat.two_pow_pos _)) hshift
  have hm1 : m1.toNat = 0 := by
    by_contra hne
    have hone : 1 * 2 ^ F.fSize ≤ m1.toNat * 2 ^ F.fSize :=
      Nat.mul_le_mul_right _ (Nat.pos_of_ne_zero hne)
    unfold pair at hpair
    omega
  have hvalue : pair m1 m0 = m0.toNat := by rw [pair, hm1, Nat.zero_mul, Nat.zero_add]
  rw [shifted2, if_neg (by omega), if_neg (not_lt.mpr hk), hsplit, ← Nat.mul_assoc,
    Nat.mul_div_cancel _ hpos, BitVec.toNat_shiftLeft, Nat.shiftLeft_eq, hvalue]
  rw [hvalue] at hshift
  exact ⟨Nat.mod_eq_of_lt hshift, Nat.mul_mod_left _ _⟩

/-- Only zeros are lost above the upper word, and the sticky bit tells of what is below it. -/
theorem shifted2_toNat {k : ℕ} {m1 m0 : F.Word}
    (hfit : pair m1 m0 * 2 ^ k < 2 ^ (2 * F.fSize)) :
    (shifted2 k m1 m0).toNat = sticky (pair m1 m0 * 2 ^ k / 2 ^ F.fSize)
      (pair m1 m0 * 2 ^ k % 2 ^ F.fSize != 0) := by
  by_cases hzero : k = 0
  · have hlt := m0.isLt
    have hpos := Nat.two_pow_pos F.fSize
    rw [shifted2, if_pos hzero, or_flag_toNat, hzero, pow_zero, Nat.mul_one, pair, Nat.add_comm,
      Nat.add_mul_div_right _ _ hpos, Nat.add_mul_mod_self_right, Nat.div_eq_of_lt hlt,
      Nat.mod_eq_of_lt hlt, Nat.zero_add]
  · by_cases hk : k < F.fSize
    · exact shifted2_low hzero hk hfit
    · obtain ⟨hword, hrest⟩ := shifted2_high (not_lt.mp hk) hfit
      rw [hword, hrest]
      rfl

/-- The value of a mantissa in two words, the leading bit of the upper one at `IMANT_SIZE`. -/
noncomputable def scaled2 (F : Format) (aExp : ℤ) (y : ℝ) : ℝ := scaled F aExp (y / 2 ^ F.fSize)

theorem normalize2Sf_eq (m1 m0 : F.Word) :
    normalize2Sf F s e m1 m0 rm fflags =
      roundPackSf F s (e - (clz2 m1 m0 - 1 : ℕ)) (shifted2 (clz2 m1 m0 - 1) m1 m0) rm fflags := by
  unfold normalize2Sf
  rw [imantSize_gap]
  rfl

/-- The leading bit of two words shifted to `IMANT_SIZE` of the upper one. -/
theorem normalized2 {m1 m0 : F.Word} (hm : Small m1) (hne : pair m1 m0 ≠ 0) :
    Normal (shifted2 (clz2 m1 m0 - 1) m1 m0) ∧
      (shifted2 (clz2 m1 m0 - 1) m1 m0).toNat =
        sticky (pair m1 m0 * 2 ^ (clz2 m1 m0 - 1) / 2 ^ F.fSize)
          (pair m1 m0 * 2 ^ (clz2 m1 m0 - 1) % 2 ^ F.fSize != 0) := by
  obtain ⟨hclz, hlow, hhigh⟩ := clz2_bounds hne
  have hsize := fSize_half (F := F)
  have hpos := Nat.two_pow_pos F.fSize
  have hone : 1 ≤ clz2 m1 m0 := by
    by_contra hzero
    have hlead : 2 * F.fSize - 1 - clz2 m1 m0 = F.fSize - 1 + F.fSize := by omega
    have hlt := m0.isLt
    rw [hlead, pow_add] at hlow
    have hsmall : m1.toNat + 1 ≤ 2 ^ (F.fSize - 1) := hm
    have hmul := Nat.mul_le_mul_right (2 ^ F.fSize) hsmall
    rw [Nat.add_mul, Nat.one_mul] at hmul
    unfold pair at hlow
    omega
  have hlow' : 2 ^ F.imantSize * 2 ^ F.fSize ≤ pair m1 m0 * 2 ^ (clz2 m1 m0 - 1) := by
    calc 2 ^ F.imantSize * 2 ^ F.fSize
        = 2 ^ (2 * F.fSize - 1 - clz2 m1 m0) * 2 ^ (clz2 m1 m0 - 1) := by
          rw [← pow_add, ← pow_add]
          congr 1
          omega
      _ ≤ pair m1 m0 * 2 ^ (clz2 m1 m0 - 1) := Nat.mul_le_mul_right _ hlow
  have hhigh' : pair m1 m0 * 2 ^ (clz2 m1 m0 - 1) < 2 ^ (F.imantSize + 1) * 2 ^ F.fSize := by
    calc pair m1 m0 * 2 ^ (clz2 m1 m0 - 1)
        < 2 ^ (2 * F.fSize - clz2 m1 m0) * 2 ^ (clz2 m1 m0 - 1) :=
          Nat.mul_lt_mul_of_pos_right hhigh (Nat.two_pow_pos _)
      _ = 2 ^ (F.imantSize + 1) * 2 ^ F.fSize := by
          rw [← pow_add, ← pow_add]
          congr 1
          omega
  have hword := shifted2_toNat (k := clz2 m1 m0 - 1) (by
    rw [two_size]
    refine hhigh'.trans (Nat.mul_lt_mul_of_pos_right ?_ hpos)
    exact Nat.pow_lt_pow_right (by decide) (by omega))
  refine ⟨⟨?_, ?_⟩, hword⟩
  · rw [hword]
    exact ((Nat.le_div_iff_mul_le hpos).mpr hlow').trans (le_sticky _ _)
  · rw [hword, hsize]
    exact sticky_le_half ((Nat.div_lt_iff_lt_mul hpos).mpr hhigh')

theorem log_div_two_pow {y : ℝ} (hy : 0 < y) (k : ℕ) :
    Int.log 2 (y / 2 ^ k) = Int.log 2 y - k := by
  have hpos := pow_pos (two_pos (α := ℝ)) k
  apply log_eq
  · rw [le_div_iff₀ hpos, ← zpow_natCast, ← two_zpow_add, Int.sub_add_cancel]
    exact zpow_log_le hy
  · rw [div_lt_iff₀ hpos, ← zpow_natCast, ← two_zpow_add]
    have hexp : Int.log 2 y - k + 1 + k = Int.log 2 y + 1 := by ring
    rw [hexp]
    exact lt_zpow_log y

theorem normal_log (hm : Normal m) : (1 : ℤ) + F.mantSize + 1 ≤ Int.log 2 (m.toNat : ℝ) := by
  have hsize := imantSize_eq (F := F)
  have hge := F.rndSize_ge
  have hlow : (2 : ℝ) ^ F.imantSize ≤ m.toNat := by exact_mod_cast hm.low
  have hlog : (F.imantSize : ℤ) ≤ Int.log 2 (m.toNat : ℝ) := le_log (by rwa [zpow_natCast])
  omega

theorem scaled_pos_of_normal (hm : Normal m) : (0 : ℝ) < m.toNat := by
  have hpos : 0 < m.toNat := lt_of_lt_of_le (Nat.two_pow_pos _) hm.low
  exact_mod_cast hpos

/-- `normalize2_sf` of a mantissa in two words that stands for the exact one. -/
theorem normalize2Sf_isRounded {m1 m0 : F.Word} {y : ℝ} {j : ℤ} (hm : Small m1)
    (halike : Alike (2 ^ j) (pair m1 m0 : ℝ) y)
    (hbits : (pair m1 m0 : ℝ) = y ∨ j + F.mantSize + 1 ≤ Int.log 2 (pair m1 m0 : ℝ)) :
    IsRounded F rm s (scaled2 F e y) fflags (normalize2Sf F s e m1 m0 rm fflags) := by
  have halike2 : Alike (2 ^ (j - F.fSize)) (pair m1 m0 / 2 ^ F.fSize : ℝ) (y / 2 ^ F.fSize) := by
    have hscale := halike.scale_zpow (-F.fSize)
    rwa [zpow_neg, zpow_natCast, ← div_eq_mul_inv, ← div_eq_mul_inv] at hscale
  rw [normalize2Sf_eq]
  by_cases hne : pair m1 m0 = 0
  · have hshift : shifted2 (clz2 m1 m0 - 1) m1 m0 = 0 := by
      rw [← toNat_eq_zero_iff, shifted2_toNat, hne, Nat.zero_mul, Nat.zero_div, Nat.zero_mod]
      · rfl
      · rw [hne, Nat.zero_mul]
        exact Nat.two_pow_pos _
    have hy : y = 0 := by
      rw [hne, Nat.cast_zero] at halike
      exact (halike.eq_iff 0 (by simp)).mp rfl
    rw [hshift, roundPackSf_zero, hy, scaled2, zero_div, scaled, zero_mul]
    exact isRounded_zero
  · obtain ⟨hnormal, hword⟩ := normalized2 hm hne
    have hround : IsRounded F rm s _ fflags (roundPackSf F s (e - (clz2 m1 m0 - 1 : ℕ))
        (shifted2 (clz2 m1 m0 - 1) m1 m0) rm fflags) := roundPackSf_isRounded hnormal
    have hsticky := sticky_shift_alike (K := ℝ) (pair m1 m0 * 2 ^ (clz2 m1 m0 - 1)) F.fSize
    rw [← hword] at hsticky
    have hone := hround.scaled_alike (j := 1) (scaled_pos_of_normal hnormal) (normal_log hnormal)
      (by rw [zpow_one]; exact hsticky)
    have hexact : scaled F (e - (clz2 m1 m0 - 1 : ℕ))
        (((pair m1 m0 * 2 ^ (clz2 m1 m0 - 1) : ℕ) : ℝ) / 2 ^ F.fSize) =
        scaled2 F e (pair m1 m0) := by
      rw [scaled2, ← scaled_shift e (clz2 m1 m0 - 1), Nat.cast_mul, Nat.cast_pow, Nat.cast_ofNat,
        mul_div_right_comm]
    rw [hexact] at hone
    obtain heq | hlog := hbits
    · rwa [heq] at hone
    · have hpos : (0 : ℝ) < pair m1 m0 := by exact_mod_cast Nat.pos_of_ne_zero hne
      refine IsRounded.scaled_alike hone (div_pos hpos (pow_pos two_pos _)) ?_ halike2
      rw [log_div_two_pow hpos]
      omega

end SoftFloat
end Riscbox

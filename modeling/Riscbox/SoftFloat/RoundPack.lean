import Riscbox.SoftFloat.Values

/-!
# Rounding and packing

`round_pack_sf` makes the correctly rounded number of every normalized mantissa, with its
flags.  A mantissa whose last bit is sticky stands for the exact one.
-/

namespace Riscbox
namespace SoftFloat

open Rounding Format

attribute [local instance] atLeastTwo

variable {F : Format} {rm : RoundingMode} {s : Bool} {fflags : BitVec 32}

theorem direction_nearestEven : rm.direction s = .nearestEven ↔ rm = .rne := by
  cases rm <;> cases s <;> decide

/-! ## The rounding of a mantissa -/

theorem clear_low_toNat (a : F.Word) : (a &&& ~~~(1 : F.Word)).toNat = a.toNat / 2 * 2 := by
  have hshift : a &&& ~~~(1 : F.Word) = a >>> 1 <<< 1 := by
    apply BitVec.eq_of_getLsbD_eq
    intro i hi
    cases i with
    | zero => simp
    | succ i => simp [hi, Nat.add_comm 1 i]
  rw [hshift, BitVec.toNat_shiftLeft, BitVec.toNat_ushiftRight, Nat.shiftRight_eq_div_pow,
    Nat.shiftLeft_eq, pow_one]
  apply Nat.mod_eq_of_lt
  have hlt := a.isLt
  omega

theorem rnd_lt : F.rndSize < F.fSize := by
  have hsize := F.fSize_rnd
  omega

theorem two_pow_rnd : 2 ^ F.rndSize = 2 * 2 ^ (F.rndSize - 1) := by
  have hge := F.rndSize_ge
  rw [← pow_succ']
  congr 1
  omega

theorem half_rnd : 2 ^ F.rndSize / 2 = 2 ^ (F.rndSize - 1) := by
  rw [two_pow_rnd]
  exact Nat.mul_div_cancel_left _ two_pos

theorem addend_toNat : (addend F s rm).toNat = (rm.direction s).addend (2 ^ F.rndSize) := by
  have hlt := rnd_lt (F := F)
  have hge := F.rndSize_ge
  have hhalf : (F.bit (F.rndSize - 1)).toNat = 2 ^ F.rndSize / 2 := by
    rw [half_rnd, bit_toNat (by omega)]
  have hall : (F.bit F.rndSize - 1).toNat = 2 ^ F.rndSize - 1 := bit_sub_one_toNat hlt
  cases rm with
  | rne => exact hhalf
  | rmm => exact hhalf
  | rtz => rfl
  | rdn =>
    cases s with
    | false => rfl
    | true => exact hall
  | rup =>
    cases s with
    | false => exact hall
    | true => rfl

theorem addend_lt (d : Direction) {q : Nat} (hq : 0 < q) : d.addend q < q := by
  cases d <;> simp only [Direction.addend] <;> omega

theorem addend_eq_zero_iff : addend F s rm = 0 ↔ rm.direction s = .towardZero := by
  have hge := F.rndSize_ge
  have hpow : 2 ^ 2 ≤ 2 ^ F.rndSize := Nat.pow_le_pow_right (by decide) (by omega)
  rw [← toNat_eq_zero_iff, addend_toNat]
  cases rm.direction s <;> simp only [Direction.addend, reduceCtorEq, iff_false] <;> omega

theorem rndBits_toNat (m : F.Word) : (rndBits m).toNat = m.toNat % 2 ^ F.rndSize :=
  and_mask_toNat m rnd_lt

theorem two_pow_half : 2 ^ F.fSize = 2 * 2 ^ (F.fSize - 1) := by
  have hsize := F.fSize_eq
  rw [← pow_succ']
  congr 1
  omega

/-- A mantissa of a word without its top bit. -/
def Small (m : F.Word) : Prop := m.toNat < 2 ^ (F.fSize - 1)

theorem rnd_le_half : 2 ^ F.rndSize ≤ 2 ^ (F.fSize - 1) :=
  Nat.pow_le_pow_right (by decide) (by have := F.fSize_rnd; omega)

theorem add_addend_toNat {m : F.Word} (hm : Small m) :
    (m + addend F s rm).toNat = m.toNat + (rm.direction s).addend (2 ^ F.rndSize) := by
  have haddend := addend_lt (rm.direction s) (Nat.two_pow_pos F.rndSize)
  have hrnd := rnd_le_half (F := F)
  have hhalf := two_pow_half (F := F)
  have hlt : m.toNat < 2 ^ (F.fSize - 1) := hm
  rw [BitVec.toNat_add, addend_toNat]
  exact Nat.mod_eq_of_lt (by omega)

theorem roundMant_toNat {m : F.Word} (hm : Small m) :
    (roundMant s m rm).toNat = roundNat (rm.direction s) m.toNat (2 ^ F.rndSize) := by
  have hshift : ((m + addend F s rm) >>> F.rndSize).toNat =
      (m.toNat + (rm.direction s).addend (2 ^ F.rndSize)) / 2 ^ F.rndSize := by
    rw [BitVec.toNat_ushiftRight, Nat.shiftRight_eq_div_pow, add_addend_toNat hm]
  have htie : rndBits m = F.bit (F.rndSize - 1) ↔ m.toNat % 2 ^ F.rndSize = 2 ^ F.rndSize / 2 := by
    have hlt := rnd_lt (F := F)
    rw [← BitVec.toNat_inj, rndBits_toNat, bit_toNat (by omega), half_rnd]
  unfold roundMant roundNat
  simp only [direction_nearestEven, htie]
  split
  · rw [clear_low_toNat, hshift]
  · exact hshift

variable (rm s) in
/-- The rounded mantissa is the rounded fraction. -/
theorem roundMant_eq {m : F.Word} (hm : Small m) :
    ((roundMant s m rm).toNat : ℤ) =
      roundInt (rm.direction s) ((m.toNat : ℝ) / 2 ^ F.rndSize) := by
  have heven : Even (2 ^ F.rndSize) := ⟨2 ^ (F.rndSize - 1), by rw [two_pow_rnd, two_mul]⟩
  have hdiv := roundInt_div (K := ℝ) (n := m.toNat) (Nat.two_pow_pos F.rndSize) heven
    (rm.direction s)
  rw [Nat.cast_pow, Nat.cast_ofNat] at hdiv
  rw [hdiv, roundMant_toNat hm]

theorem rndBits_eq_zero_iff (m : F.Word) :
    rndBits m = 0 ↔ ∃ n : ℤ, (m.toNat : ℝ) / 2 ^ F.rndSize = n := by
  have hpos : (2 : ℝ) ^ F.rndSize ≠ 0 := pow_ne_zero _ two_ne_zero
  rw [← toNat_eq_zero_iff, rndBits_toNat]
  constructor
  · intro h
    refine ⟨(m.toNat / 2 ^ F.rndSize : ℕ), ?_⟩
    have hdiv := Nat.div_add_mod' m.toNat (2 ^ F.rndSize)
    rw [h, Nat.add_zero] at hdiv
    rw [div_eq_iff hpos]
    exact_mod_cast hdiv.symm
  · rintro ⟨n, hn⟩
    rw [div_eq_iff hpos] at hn
    have hint : (m.toNat : ℤ) = n * 2 ^ F.rndSize := by exact_mod_cast hn
    have hdvd : ((2 ^ F.rndSize : ℕ) : ℤ) ∣ m.toNat := ⟨n, by rw [hint]; push_cast; ring⟩
    exact Nat.mod_eq_zero_of_dvd (by exact_mod_cast hdvd)

/-! ## The exact value of a mantissa -/

/-- A mantissa with its leading bit at `IMANT_SIZE`. -/
structure Normal (m : F.Word) : Prop where
  low : 2 ^ F.imantSize ≤ m.toNat
  high : m.toNat < 2 ^ (F.fSize - 1)

/-- The value of a mantissa under a biased exponent. -/
noncomputable def scaled (F : Format) (aExp : ℤ) (y : ℝ) : ℝ :=
  y * 2 ^ (aExp - F.bias - F.imantSize)

theorem imantSize_eq : F.imantSize = F.mantSize + F.rndSize := by
  have hsize := F.fSize_rnd
  unfold imantSize
  omega

theorem fSize_half : F.fSize - 1 = F.imantSize + 1 := by
  have hsize := F.fSize_rnd
  unfold imantSize
  omega

variable {e : ℤ} {m : F.Word}

theorem Normal.small (hm : Normal m) : Small m := hm.high

theorem scaled_log (hm : Normal m) : Int.log 2 (scaled F e m.toNat) = e - F.bias := by
  have hlow : (2 : ℝ) ^ F.imantSize ≤ m.toNat := by exact_mod_cast hm.low
  have hhigh : (m.toNat : ℝ) < 2 ^ (F.imantSize + 1) := by
    have h := hm.high
    rw [fSize_half] at h
    exact_mod_cast h
  have hpos := two_zpow_pos (K := ℝ) (e - F.bias - F.imantSize)
  apply log_eq
  · calc (2 : ℝ) ^ (e - F.bias) = 2 ^ F.imantSize * 2 ^ (e - F.bias - F.imantSize) := by
          rw [← zpow_natCast, ← two_zpow_add]
          congr 1
          ring
      _ ≤ scaled F e m.toNat := mul_le_mul_of_nonneg_right hlow hpos.le
  · calc scaled F e m.toNat < 2 ^ (F.imantSize + 1) * 2 ^ (e - F.bias - F.imantSize) :=
          mul_lt_mul_of_pos_right hhigh hpos
      _ = (2 : ℝ) ^ (e - F.bias + 1) := by
          rw [← zpow_natCast, ← two_zpow_add]
          congr 1
          push_cast
          ring

theorem scaled_pos (hm : Normal m) : 0 < scaled F e m.toNat := by
  have hpos : 0 < m.toNat := lt_of_lt_of_le (Nat.two_pow_pos _) hm.low
  exact mul_pos (by exact_mod_cast hpos) (two_zpow_pos _)

/-- The exponent that a mantissa is packed with, unless it carries. -/
def packExp (aExp : ℤ) : ℤ := if aExp ≤ 0 then 1 else aExp

/-- The mantissa at that exponent. -/
def packMant (aExp : ℤ) (m : F.Word) : F.Word :=
  if aExp ≤ 0 then rshiftRnd m (1 - aExp).toNat else m

theorem ulp_scaled (hm : Normal m) :
    ulp F.mantSize F.emin (scaled F e m.toNat) = 2 ^ (packExp e - F.bias - F.mantSize) := by
  rw [ulp, scaled_log hm, emin, packExp]
  congr 2
  split
  · rw [max_eq_right (by omega)]
  · rw [max_eq_left (by omega)]

theorem sticky_le_half {n k : ℕ} {b : Bool} (hn : n < 2 ^ (k + 1)) : sticky n b < 2 ^ (k + 1) := by
  have hpow : 2 ^ (k + 1) = 2 * 2 ^ k := pow_succ' 2 k
  unfold sticky
  split
  · rw [or_one]
    omega
  · exact hn

/-- A subnormal mantissa has been shifted by one bit at least. -/
theorem packMant_lt (hm : Normal m) (he : e ≤ 0) : (packMant e m).toNat < 2 ^ F.imantSize := by
  have hge := F.rndSize_ge
  have hsize := imantSize_eq (F := F)
  have hhigh := hm.high
  have hshift : (1 - e).toNat = (1 - e).toNat - 1 + 1 := by omega
  rw [packMant, if_pos he, rshiftRnd_toNat]
  obtain ⟨k, hk⟩ : ∃ k, F.imantSize = k + 1 := ⟨F.imantSize - 1, by omega⟩
  rw [hk]
  apply sticky_le_half
  rw [← hk, Nat.div_lt_iff_lt_mul (Nat.two_pow_pos _)]
  calc m.toNat < 2 ^ F.imantSize * 2 := by
        rw [fSize_half, pow_succ] at hhigh
        exact hhigh
    _ ≤ 2 ^ F.imantSize * 2 ^ (1 - e).toNat := by
        rw [hshift, pow_succ]
        exact Nat.mul_le_mul_left _ (Nat.le_mul_of_pos_left 2 (Nat.two_pow_pos _))

theorem packMant_small (hm : Normal m) : Small (packMant e m) := by
  by_cases he : e ≤ 0
  · have hlt := packMant_lt hm he
    have hpow : 2 ^ F.imantSize ≤ 2 ^ (F.fSize - 1) :=
      Nat.pow_le_pow_right (by decide) (by rw [fSize_half]; omega)
    exact hlt.trans_le hpow
  · rw [packMant, if_neg he]
    exact hm.high

/-- Below the bits that rounding drops, the sticky bit stands for the exact rest. -/
theorem fraction_alike {x y : ℝ} (h : Alike 2 x y) :
    Alike (1 / 2) (x / 2 ^ F.rndSize) (y / 2 ^ F.rndSize) := by
  have hge := F.rndSize_ge
  have hhalf : (1 / 2 : ℝ) = 2 ^ (-1 : ℤ) := by norm_num
  have hscale := Alike.scale_zpow (K := ℝ) (a := 1) (-(F.rndSize : ℤ)) (by simpa using h)
  rw [zpow_neg, zpow_natCast, ← div_eq_mul_inv, ← div_eq_mul_inv] at hscale
  rw [hhalf]
  exact hscale.coarsen_zpow (by omega)

/-- The packed mantissa stands for the exact one in units of the last kept bit. -/
theorem packMant_alike (hm : Normal m) :
    Alike (1 / 2 : ℝ) ((packMant e m).toNat / 2 ^ F.rndSize)
      (scaled F e m.toNat / ulp F.mantSize F.emin (scaled F e m.toNat)) := by
  have hsize := imantSize_eq (F := F)
  rw [ulp_scaled hm]
  have hunit : scaled F e m.toNat / 2 ^ (packExp e - F.bias - F.mantSize) =
      m.toNat * 2 ^ (e - packExp e) / 2 ^ F.rndSize := by
    rw [scaled, mul_div_assoc, ← zpow_sub₀ two_ne_zero, mul_div_assoc, ← zpow_natCast,
      ← zpow_sub₀ two_ne_zero]
    congr 2
    rw [hsize]
    push_cast
    ring
  rw [hunit]
  by_cases he : e ≤ 0
  · have hsticky := sticky_shift_alike (K := ℝ) m.toNat (1 - e).toNat
    rw [← rshiftRnd_toNat] at hsticky
    have hexact : (m.toNat : ℝ) / 2 ^ (1 - e).toNat = m.toNat * 2 ^ (e - packExp e) := by
      have hneg : e - packExp e = -((1 - e).toNat : ℤ) := by
        rw [packExp, if_pos he]
        omega
      rw [hneg, zpow_neg, zpow_natCast, div_eq_mul_inv]
    rw [hexact] at hsticky
    rw [packMant, if_pos he]
    exact fraction_alike hsticky
  · rw [packMant, packExp, if_neg he, if_neg he, sub_self, zpow_zero, mul_one]
    exact Alike.refl _ _

/-- The exact magnitude is rounded to the rounded mantissa. -/
theorem rounded_scaled (hm : Normal m) :
    rounded F rm s (scaled F e m.toNat) =
      (roundMant s (packMant e m) rm).toNat * 2 ^ (packExp e - F.bias - F.mantSize) := by
  have hround := roundInt_alike (d := rm.direction s) (packMant_alike (e := e) hm)
  have hmant := roundMant_eq rm s (packMant_small (e := e) hm)
  rw [hround] at hmant
  have hcast : (((roundMant s (packMant e m) rm).toNat : ℤ) : ℝ) = (roundInt (rm.direction s)
      (scaled F e m.toNat / ulp F.mantSize F.emin (scaled F e m.toNat)) : ℤ) := by rw [hmant]
  rw [rounded, roundFloat, roundTo, ← hcast, ulp_scaled hm, Int.cast_natCast]

theorem rounded_exact (hm : Normal m) :
    rounded F rm s (scaled F e m.toNat) = scaled F e m.toNat ↔ rndBits (packMant e m) = 0 := by
  have halike := packMant_alike (e := e) hm
  rw [rndBits_eq_zero_iff, rounded, roundFloat, roundTo_eq_self ulp_pos]
  apply exists_congr
  intro n
  rw [halike.eq_iff _ (int_multiple n), div_eq_iff ulp_pos.ne']

/-! ## The size of the rounded mantissa -/

theorem fraction_le {k n : ℕ} (hn : n ≤ 2 ^ (k + F.rndSize)) :
    (n : ℝ) / 2 ^ F.rndSize ≤ ((2 ^ k : ℤ) : ℝ) := by
  rw [div_le_iff₀ (pow_pos two_pos _)]
  push_cast
  rw [← pow_add]
  exact_mod_cast hn

theorem le_fraction {k n : ℕ} (hn : 2 ^ (k + F.rndSize) ≤ n) :
    ((2 ^ k : ℤ) : ℝ) ≤ (n : ℝ) / 2 ^ F.rndSize := by
  rw [le_div_iff₀ (pow_pos two_pos _)]
  push_cast
  rw [← pow_add]
  exact_mod_cast hn

variable (rm s) in
theorem roundMant_le {k : ℕ} (hm : Small m) (hk : m.toNat ≤ 2 ^ (k + F.rndSize)) :
    (roundMant s m rm).toNat ≤ 2 ^ k := by
  have hround := roundInt_le (d := rm.direction s) (fraction_le hk)
  rw [← roundMant_eq rm s hm] at hround
  exact_mod_cast hround

variable (rm s) in
theorem le_roundMant {k : ℕ} (hm : Small m) (hk : 2 ^ (k + F.rndSize) ≤ m.toNat) :
    2 ^ k ≤ (roundMant s m rm).toNat := by
  have hround := le_roundInt (d := rm.direction s) (le_fraction hk)
  rw [← roundMant_eq rm s hm] at hround
  exact_mod_cast hround

theorem small_le (hm : Small m) : m.toNat ≤ 2 ^ (F.mantSize + 1 + F.rndSize) := by
  have hexp : F.mantSize + 1 + F.rndSize = F.fSize - 1 := by
    have hsize := F.fSize_rnd
    omega
  rw [hexp]
  exact le_of_lt hm

theorem packed_le (hm : Normal m) :
    (roundMant s (packMant e m) rm).toNat ≤ 2 ^ (F.mantSize + 1) :=
  roundMant_le rm s (packMant_small hm) (small_le (packMant_small hm))

theorem packed_le_subnormal (hm : Normal m) (he : e ≤ 0) :
    (roundMant s (packMant e m) rm).toNat ≤ 2 ^ F.mantSize := by
  apply roundMant_le rm s (packMant_small hm)
  rw [← imantSize_eq]
  exact (packMant_lt hm he).le

theorem le_packed (hm : Normal m) (he : 0 < e) :
    2 ^ F.mantSize ≤ (roundMant s (packMant e m) rm).toNat := by
  apply le_roundMant rm s (packMant_small hm)
  rw [← imantSize_eq, packMant, if_neg (not_le.mpr he)]
  exact hm.low

theorem shift_carry {n : ℕ} (hn : n ≤ 2 ^ (F.mantSize + 1)) :
    n / 2 ^ (F.mantSize + 1) = if n = 2 ^ (F.mantSize + 1) then 1 else 0 := by
  split
  case isTrue h => rw [h, Nat.div_self (Nat.two_pow_pos _)]
  case isFalse h => exact Nat.div_eq_of_lt (lt_of_le_of_ne hn h)

/-! ## Overflow and underflow -/

/-- The magnitude of a rounded mantissa is past the finite ones where its exponent is. -/
theorem overflow_iff {n : ℕ} {e' : ℤ} (hlow : 2 ^ F.mantSize ≤ n) (hhigh : n ≤ 2 ^ (F.mantSize + 1)) :
    (2 : ℝ) ^ (F.bias + 1) ≤ n * 2 ^ (e' - F.bias - F.mantSize) ↔
      (F.expMask : ℤ) ≤ e' + (n / 2 ^ (F.mantSize + 1) : ℕ) := by
  have hmask := F.expMask_eq
  have hlowR : (2 : ℝ) ^ F.mantSize ≤ n := by exact_mod_cast hlow
  rw [shift_carry hhigh]
  split
  case isTrue h =>
    have hvalue : (n : ℝ) * 2 ^ (e' - F.bias - F.mantSize) = 2 ^ (e' - F.bias + 1) := by
      rw [h]
      push_cast
      rw [← zpow_natCast, ← two_zpow_add]
      congr 1
      push_cast
      ring
    rw [hvalue, zpow_le_zpow_iff_right₀ one_lt_two]
    omega
  case isFalse h =>
    have hpos := two_zpow_pos (K := ℝ) (e' - F.bias - F.mantSize)
    have hlt : (n : ℝ) < 2 ^ (F.mantSize + 1) := by exact_mod_cast lt_of_le_of_ne hhigh h
    have hlower : (2 : ℝ) ^ (e' - F.bias) ≤ n * 2 ^ (e' - F.bias - F.mantSize) := by
      calc (2 : ℝ) ^ (e' - F.bias) = 2 ^ F.mantSize * 2 ^ (e' - F.bias - F.mantSize) := by
            rw [← zpow_natCast, ← two_zpow_add]
            congr 1
            ring
        _ ≤ n * 2 ^ (e' - F.bias - F.mantSize) := mul_le_mul_of_nonneg_right hlowR hpos.le
    have hupper : (n : ℝ) * 2 ^ (e' - F.bias - F.mantSize) < 2 ^ (e' - F.bias + 1) := by
      calc (n : ℝ) * 2 ^ (e' - F.bias - F.mantSize)
          < 2 ^ (F.mantSize + 1) * 2 ^ (e' - F.bias - F.mantSize) :=
            mul_lt_mul_of_pos_right hlt hpos
        _ = (2 : ℝ) ^ (e' - F.bias + 1) := by
            rw [← zpow_natCast, ← two_zpow_add]
            congr 1
            push_cast
            ring
    constructor
    · intro hle
      have hexp := (zpow_lt_zpow_iff_right₀ one_lt_two).mp (hle.trans_lt hupper)
      omega
    · intro hle
      exact (zpow_le_zpow_right₀ one_le_two (by omega)).trans hlower

theorem subnormal_inRange {n : ℕ} (hn : n ≤ 2 ^ F.mantSize) :
    (n : ℝ) * 2 ^ (1 - F.bias - F.mantSize) < 2 ^ (F.bias + 1) := by
  have hbias := F.bias_ge
  have hnR : (n : ℝ) ≤ 2 ^ F.mantSize := by exact_mod_cast hn
  calc (n : ℝ) * 2 ^ (1 - F.bias - F.mantSize) ≤ 2 ^ F.mantSize * 2 ^ (1 - F.bias - F.mantSize) :=
        mul_le_mul_of_nonneg_right hnR (two_zpow_pos _).le
    _ = (2 : ℝ) ^ (1 - F.bias) := by
        rw [← zpow_natCast, ← two_zpow_add]
        congr 1
        ring
    _ < 2 ^ (F.bias + 1) := zpow_lt_zpow_right₀ one_lt_two (by omega)

/-- The magnitude rounded without a least exponent. -/
theorem roundNormal_scaled (hm : Normal m) :
    roundNormal (rm.direction s) F.mantSize (scaled F e m.toNat) =
      (roundMant s m rm).toNat * 2 ^ (e - F.bias - F.mantSize) := by
  have hsize := imantSize_eq (F := F)
  have hunit : scaled F e m.toNat / 2 ^ (e - F.bias - F.mantSize) = m.toNat / 2 ^ F.rndSize := by
    rw [scaled, mul_div_assoc, ← zpow_sub₀ two_ne_zero, div_eq_mul_inv, ← zpow_natCast, ← zpow_neg]
    congr 2
    rw [hsize]
    push_cast
    ring
  rw [roundNormal, roundTo, scaled_log hm, hunit, ← roundMant_eq rm s hm.small, Int.cast_natCast]

/-- What `round_pack_sf` takes for a subnormal result. -/
def IsSubnormal (s : Bool) (e : ℤ) (m : F.Word) (rm : RoundingMode) : Prop :=
  e ≤ 0 ∧ (e < 0 ∨ m + addend F s rm < F.bit (F.fSize - 1))

instance : Decidable (IsSubnormal s e m rm) := inferInstanceAs (Decidable (_ ∧ _))

theorem roundMant_lt_iff (hm : Small m) :
    (roundMant s m rm).toNat < 2 ^ (F.mantSize + 1) ↔
      m + addend F s rm < F.bit (F.fSize - 1) := by
  have hsize := F.fSize_rnd
  have hexp : 2 ^ (F.fSize - 1) = 2 ^ (F.mantSize + 1) * 2 ^ F.rndSize := by
    rw [← pow_add]
    congr 1
    omega
  have hpow : 2 ^ (F.mantSize + 1) = 2 * 2 ^ F.mantSize := pow_succ' 2 _
  rw [BitVec.lt_def, bit_toNat (by omega), add_addend_toNat hm, roundMant_toNat hm, hexp,
    ← Nat.div_lt_iff_lt_mul (Nat.two_pow_pos _)]
  unfold roundNat
  split
  · omega
  · exact Iff.rfl

theorem tiny_iff (hm : Normal m) :
    Tiny F rm s (scaled F e m.toNat) ↔ IsSubnormal s e m rm := by
  have hlow := le_roundMant rm s (k := F.mantSize) hm.small
    (by rw [← imantSize_eq]; exact hm.low)
  have hhigh := roundMant_le rm s hm.small (small_le hm.small)
  have hpos := two_zpow_pos (K := ℝ) (e - F.bias - F.mantSize)
  have hlowR : (2 : ℝ) ^ F.mantSize ≤ (roundMant s m rm).toNat := by exact_mod_cast hlow
  have hhighR : ((roundMant s m rm).toNat : ℝ) ≤ 2 ^ (F.mantSize + 1) := by exact_mod_cast hhigh
  unfold Tiny IsSubnormal
  rw [roundNormal_scaled hm, ← roundMant_lt_iff hm.small]
  obtain hneg | hzero | hgt := lt_trichotomy e 0
  · refine iff_of_true ?_ ⟨hneg.le, Or.inl hneg⟩
    calc ((roundMant s m rm).toNat : ℝ) * 2 ^ (e - F.bias - F.mantSize)
        ≤ 2 ^ (F.mantSize + 1) * 2 ^ (e - F.bias - F.mantSize) :=
          mul_le_mul_of_nonneg_right hhighR hpos.le
      _ = (2 : ℝ) ^ (e - F.bias + 1) := by
          rw [← zpow_natCast, ← two_zpow_add]
          congr 1
          push_cast
          ring
      _ < 2 ^ F.emin := zpow_lt_zpow_right₀ one_lt_two (by unfold emin; omega)
  · -- One bit below the normal numbers, where only a carry reaches them.
    have hpower : (2 : ℝ) ^ F.emin = 2 ^ (F.mantSize + 1) * 2 ^ (e - F.bias - F.mantSize) := by
      rw [← zpow_natCast, ← two_zpow_add, emin, hzero]
      congr 1
      push_cast
      ring
    rw [hpower, mul_lt_mul_iff_left₀ hpos]
    constructor
    · intro hlt
      exact ⟨hzero.le, Or.inr (by exact_mod_cast hlt)⟩
    · rintro ⟨_, hneg | hlt⟩
      · omega
      · exact_mod_cast hlt
  · refine iff_of_false (not_lt.mpr ?_) (fun h => absurd h.1 (not_le.mpr hgt))
    calc (2 : ℝ) ^ F.emin ≤ 2 ^ (e - F.bias) :=
          zpow_le_zpow_right₀ one_le_two (by unfold emin; omega)
      _ = 2 ^ F.mantSize * 2 ^ (e - F.bias - F.mantSize) := by
          rw [← zpow_natCast, ← two_zpow_add]
          congr 1
          ring
      _ ≤ (roundMant s m rm).toNat * 2 ^ (e - F.bias - F.mantSize) :=
          mul_le_mul_of_nonneg_right hlowR hpos.le

/-! ## The packed result -/

theorem mantMask_toNat : F.mantMask.toNat = 2 ^ F.mantSize - 1 :=
  bit_sub_one_toNat (by have := F.fSize_eq; omega)

theorem le_mantMask_iff (m : F.Word) : m ≤ F.mantMask ↔ m.toNat < 2 ^ F.mantSize := by
  have hpos := Nat.two_pow_pos F.mantSize
  rw [BitVec.le_def, mantMask_toNat]
  omega

/-- The magnitude of a packed number whose mantissa has its leading bit, or a carry past it. -/
theorem magnitude_packSf {e' : ℕ} {m : F.Word} (hpos : 0 < e')
    (hle : e' + m.toNat / 2 ^ (F.mantSize + 1) ≤ F.expMask) (hlow : 2 ^ F.mantSize ≤ m.toNat)
    (hhigh : m.toNat ≤ 2 ^ (F.mantSize + 1)) :
    magnitude (packSf F s (e' + m.toNat / 2 ^ (F.mantSize + 1) : ℕ) m) =
      m.toNat * 2 ^ ((e' : ℤ) - F.bias - F.mantSize) := by
  have hpow : 2 ^ (F.mantSize + 1) = 2 * 2 ^ F.mantSize := pow_succ' 2 _
  obtain ⟨hexp, hmant⟩ := packSf_fields (s := s) hle m
  rw [magnitude, significand, scale, hexp, hmant, if_neg (Nat.add_pos_left hpos _).ne',
    max_eq_left (Nat.add_pos_left hpos _), shift_carry hhigh]
  split
  case isTrue h =>
    have hmod : m.toNat % 2 ^ F.mantSize = 0 := by rw [h, hpow, Nat.mul_mod_left]
    have hcarry : ((e' + 1 : ℕ) : ℤ) - F.bias - F.mantSize = 1 + (e' - F.bias - F.mantSize) := by
      push_cast
      ring
    rw [hmod, hcarry, two_zpow_add, zpow_one, h, hpow]
    push_cast
    ring
  case isFalse h =>
    have hmod : m.toNat % 2 ^ F.mantSize = m.toNat - 2 ^ F.mantSize := by
      rw [Nat.mod_eq_sub_mod hlow, Nat.mod_eq_of_lt (by omega)]
    rw [hmod, Nat.add_sub_of_le hlow, Nat.add_zero]

theorem magnitude_packSf_zero {m : F.Word} (hm : m.toNat < 2 ^ F.mantSize) :
    magnitude (packSf F s (0 : ℕ) m) = m.toNat * 2 ^ (1 - F.bias - F.mantSize) := by
  obtain ⟨hexp, hmant⟩ := packSf_fields (s := s) (Nat.zero_le F.expMask) m
  rw [magnitude, significand, scale, hexp, hmant, if_pos rfl, Nat.mod_eq_of_lt hm]
  rfl

/-- `round_pack_sf` with the underflow and inexact flags already decided. -/
theorem roundPackSf_eq (hm : Normal m) :
    roundPackSf F s e m rm fflags =
      let flags := fflags ||| roundingFlags F rm s (scaled F e m.toNat)
      let mant := roundMant s (packMant e m) rm
      let exp := packExp e + (mant.toNat / 2 ^ (F.mantSize + 1) : ℕ)
      if mant.toNat < 2 ^ F.mantSize then (packSf F s 0 mant, flags)
      else if F.expMask ≤ exp then
        (overflowed F rm s, fflags ||| roundingFlags F rm s (scaled F e m.toNat) |||
          (fflagOverflow ||| fflagInexact))
      else (packSf F s exp mant, flags) := by
  have hflags : (if rndBits (packMant e m) ≠ 0 then
      (if IsSubnormal s e m rm ∧ rndBits (packMant e m) ≠ 0 then fflags ||| fflagUnderflow
        else fflags) ||| fflagInexact
      else if IsSubnormal s e m rm ∧ rndBits (packMant e m) ≠ 0 then fflags ||| fflagUnderflow
        else fflags) = fflags ||| roundingFlags F rm s (scaled F e m.toNat) := by
    unfold roundingFlags
    simp only [rounded_exact hm, tiny_iff hm]
    by_cases hexact : rndBits (packMant e m) = 0
    · rw [if_neg (not_not.mpr hexact), if_neg (fun h => h.2 hexact), if_pos hexact]
      exact BitVec.or_zero.symm
    · rw [if_pos hexact, if_neg hexact]
      by_cases htiny : IsSubnormal s e m rm
      · rw [if_pos ⟨htiny, hexact⟩, if_pos htiny, BitVec.or_assoc]
      · rw [if_neg (fun h => htiny h.1), if_neg htiny]
  have hshift : ((roundMant s (packMant e m) rm) >>> (F.mantSize + 1)).toNat =
      (roundMant s (packMant e m) rm).toNat / 2 ^ (F.mantSize + 1) := by
    rw [BitVec.toNat_ushiftRight, Nat.shiftRight_eq_div_pow]
  dsimp only
  rw [← hflags, ← hshift]
  unfold roundPackSf IsSubnormal overflowed
  simp only [← addend_eq_zero_iff (F := F), ← le_mantMask_iff]
  by_cases hzero : addend F s rm = 0
  · simp only [if_pos hzero]
    rfl
  · simp only [if_neg hzero]
    rfl

/-- An overflow is inexact in any case. -/
theorem overflow_flags {x : ℝ} (h : ¬ Tiny F rm s x) :
    fflags ||| roundingFlags F rm s x ||| (fflagOverflow ||| fflagInexact) =
      fflags ||| (fflagOverflow ||| fflagInexact) := by
  unfold roundingFlags
  rw [if_neg h]
  have hzero : fflags ||| 0 = fflags := BitVec.or_zero
  split
  · rw [hzero]
  · rw [BitVec.or_assoc, BitVec.or_comm fflagOverflow, ← BitVec.or_assoc fflagInexact,
      BitVec.or_self]

/-- `round_pack_sf` makes the correctly rounded number of a normalized mantissa. -/
theorem roundPackSf_isRounded (hm : Normal m) :
    IsRounded F rm s (scaled F e m.toNat) fflags (roundPackSf F s e m rm fflags) := by
  have hle : (roundMant s (packMant e m) rm).toNat ≤ 2 ^ (F.mantSize + 1) := packed_le hm
  have hvalue : rounded F rm s (scaled F e m.toNat) =
      (roundMant s (packMant e m) rm).toNat * 2 ^ (packExp e - F.bias - F.mantSize) :=
    rounded_scaled hm
  rw [roundPackSf_eq hm]
  dsimp only
  by_cases hsub : (roundMant s (packMant e m) rm).toNat < 2 ^ F.mantSize
  · have he : e ≤ 0 := by
      by_contra hpos
      exact absurd hsub (not_lt.mpr (le_packed hm (not_le.mp hpos)))
    rw [packExp, if_pos he] at hvalue
    rw [if_pos hsub]
    constructor
    · intro hover
      obtain ⟨hexp, hmant⟩ := packSf_fields (s := s) (Nat.zero_le F.expMask)
        (roundMant s (packMant e m) rm)
      have hmask := F.expMask_ge
      refine ⟨?_, signOf_packSf (Nat.zero_le _) _, ?_, rfl⟩
      · rw [IsFinite]
        exact ne_of_eq_of_ne hexp (by omega)
      · rw [hvalue]
        exact magnitude_packSf_zero hsub
    · intro hover
      rw [Overflows, hvalue] at hover
      exact absurd hover (not_le.mpr (subnormal_inRange hsub.le))
  · have hlow := not_lt.mp hsub
    have hexp : 0 < packExp e := by
      unfold packExp
      split <;> omega
    obtain ⟨k, hk⟩ := Int.eq_ofNat_of_zero_le hexp.le
    have hover : Overflows F rm s (scaled F e m.toNat) ↔ (F.expMask : ℤ) ≤ packExp e +
        ((roundMant s (packMant e m) rm).toNat / 2 ^ (F.mantSize + 1) : ℕ) := by
      rw [Overflows, hvalue]
      exact overflow_iff hlow hle
    rw [if_neg hsub]
    by_cases hpast : (F.expMask : ℤ) ≤ packExp e +
        ((roundMant s (packMant e m) rm).toNat / 2 ^ (F.mantSize + 1) : ℕ)
    · rw [if_pos hpast]
      refine ⟨fun h => absurd (hover.mpr hpast) h, fun _ => ?_⟩
      have hnormal : ¬ Tiny F rm s (scaled F e m.toNat) := by
        rw [tiny_iff hm]
        rintro ⟨he, _⟩
        have hmask := F.expMask_ge
        rw [shift_carry hle, packExp, if_pos he] at hpast
        split at hpast <;> omega
      rw [overflow_flags hnormal]
    · rw [if_neg hpast]
      refine ⟨fun _ => ?_, fun h => absurd (hover.mp h) hpast⟩
      rw [hk] at hpast hvalue ⊢
      have hfit : k + (roundMant s (packMant e m) rm).toNat / 2 ^ (F.mantSize + 1) ≤ F.expMask := by
        omega
      have hfields := packSf_fields (s := s) hfit (roundMant s (packMant e m) rm)
      refine ⟨?_, signOf_packSf hfit _, ?_, rfl⟩
      · rw [IsFinite]
        refine ne_of_eq_of_ne hfields.1 ?_
        omega
      · rw [hvalue]
        exact magnitude_packSf (by omega) hfit hlow hle

end SoftFloat
end Riscbox

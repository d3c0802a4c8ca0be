import Riscbox.Arithmetic.Rounding

/-!
# Rounding to a precision

The numbers with `m` fraction bits and exponents from `l` on.  Below `2 ^ l` the
spacing stays what it is there, which gives the subnormal numbers.
-/

namespace Riscbox
namespace Rounding

-- One proof for the numeral `2` of all definitions below.
theorem atLeastTwo : Nat.AtLeastTwo (nat_lit 2) := ⟨le_refl 2⟩

attribute [local instance] atLeastTwo

variable {K : Type*} [Field K] [LinearOrder K] [IsStrictOrderedRing K] [FloorRing K]

/-- A magnitude as a multiple of `q`. -/
def roundTo (d : Direction) (q x : K) : K := roundInt d (x / q) * q

/-- The spacing of the numbers around a magnitude. -/
def ulp (m : ℕ) (l : ℤ) (x : K) : K := 2 ^ (max (Int.log 2 x) l - m)

def roundFloat (d : Direction) (m : ℕ) (l : ℤ) (x : K) : K := roundTo d (ulp m l x) x

/-- Rounding as if there were no least exponent. -/
def roundNormal (d : Direction) (m : ℕ) (x : K) : K := roundTo d (2 ^ (Int.log 2 x - m)) x

/-- `y` is a number of the format. -/
def IsFloat (m : ℕ) (l : ℤ) (y : K) : Prop :=
  ∃ n : ℕ, ∃ e : ℤ, l ≤ e ∧ n < 2 ^ (m + 1) ∧ y = n * 2 ^ (e - m)

variable {d : Direction} {m : ℕ} {l j : ℤ} {q x y : K}

theorem two_zpow_pos (e : ℤ) : (0 : K) < 2 ^ e := zpow_pos two_pos e

omit [IsStrictOrderedRing K] in
theorem two_zpow_add (a b : ℤ) : (2 : K) ^ (a + b) = 2 ^ a * 2 ^ b := zpow_add₀ two_ne_zero a b

theorem ulp_pos : 0 < ulp m l x := two_zpow_pos _

/-! ## The exponent of a value -/

theorem log_eq {e : ℤ} (hlow : 2 ^ e ≤ x) (hhigh : x < 2 ^ (e + 1)) : Int.log 2 x = e := by
  have hx : 0 < x := (two_zpow_pos e).trans_le hlow
  have hle : e ≤ Int.log 2 x := (Int.zpow_le_iff_le_log one_lt_two hx).mp (by exact_mod_cast hlow)
  have hlt : Int.log 2 x < e + 1 := (Int.lt_zpow_iff_log_lt one_lt_two hx).mp (by exact_mod_cast hhigh)
  omega

theorem zpow_log_le (hx : 0 < x) : 2 ^ Int.log 2 x ≤ x := by
  exact_mod_cast Int.zpow_log_le_self one_lt_two hx

theorem lt_zpow_log (x : K) : x < 2 ^ (Int.log 2 x + 1) := by
  exact_mod_cast Int.lt_zpow_succ_log_self one_lt_two x

omit [IsStrictOrderedRing K] in
/-- A power of two is a multiple of every smaller one. -/
theorem zpow_multiple {a b : ℤ} (h : a ≤ b) : ∃ n : ℕ, (2 : K) ^ b = n * 2 ^ a := by
  refine ⟨2 ^ (b - a).toNat, ?_⟩
  have hsplit : b = (b - a).toNat + a := by omega
  calc (2 : K) ^ b = 2 ^ (((b - a).toNat : ℤ) + a) := by rw [← hsplit]
    _ = 2 ^ ((b - a).toNat : ℤ) * 2 ^ a := two_zpow_add _ _
    _ = ((2 ^ (b - a).toNat : ℕ) : K) * 2 ^ a := by
        rw [zpow_natCast]
        push_cast
        rfl

omit [IsStrictOrderedRing K] in
theorem Alike.coarsen_zpow {a b : ℤ} (hab : a ≤ b) (h : Alike (2 ^ a) x y) :
    Alike (2 ^ b) x y := by
  obtain ⟨n, hn⟩ := zpow_multiple (K := K) hab
  have hcoarse := h.coarsen (n : ℤ)
  rwa [Int.cast_natCast, ← hn] at hcoarse

theorem Alike.scale_zpow {a : ℤ} (b : ℤ) (h : Alike (2 ^ a) x y) :
    Alike (2 ^ (a + b)) (x * 2 ^ b) (y * 2 ^ b) := by
  rw [two_zpow_add]
  exact h.scale (two_zpow_pos b)

/-- A grid finer than a value keeps its exponent. -/
theorem Alike.log_eq (h : Alike (2 ^ j) x y) (hx : 0 < x) (hj : j ≤ Int.log 2 x) :
    Int.log 2 y = Int.log 2 x := by
  obtain ⟨low, hlow⟩ := zpow_multiple (K := K) hj
  obtain ⟨high, hhigh⟩ := zpow_multiple (K := K) (show j ≤ Int.log 2 x + 1 by omega)
  apply Rounding.log_eq
  · rw [← h.le_iff low (by exact_mod_cast hlow)]
    exact zpow_log_le hx
  · rw [← h.lt_iff high (by exact_mod_cast hhigh)]
    exact lt_zpow_log x

/-! ## What rounding depends on -/

theorem roundTo_alike (hq : 0 < q) (h : Alike (q / 2) x y) : roundTo d q x = roundTo d q y := by
  have hscaled := h.scale (inv_pos.mpr hq)
  have hgrid : q / 2 * q⁻¹ = 1 / 2 := by
    field_simp
  rw [hgrid] at hscaled
  rw [roundTo, roundTo, div_eq_mul_inv, div_eq_mul_inv, roundInt_alike hscaled]

theorem roundTo_eq_self (hq : 0 < q) : roundTo d q x = x ↔ ∃ n : ℤ, x = n * q := by
  have hdiv : roundTo d q x = x ↔ (roundInt d (x / q) : K) = x / q := by
    rw [roundTo, eq_div_iff hq.ne']
  rw [hdiv, roundInt_eq_self]
  simp only [div_eq_iff hq.ne']

/-- Values alike on a grid of half the spacing are rounded alike, and both are exact or
neither is. -/
theorem roundTo_zpow_alike {s : ℤ} (hs : j + 1 ≤ s) (h : Alike (2 ^ j) x y) :
    roundTo d (2 ^ s) x = roundTo d (2 ^ s) y ∧
      (roundTo d (2 ^ s) x = x ↔ roundTo d (2 ^ s) y = y) := by
  constructor
  · apply roundTo_alike (two_zpow_pos s)
    have hhalf : (2 : K) ^ s / 2 = 2 ^ (s - 1) := by rw [zpow_sub_one₀ two_ne_zero, div_eq_mul_inv]
    rw [hhalf]
    exact h.coarsen_zpow (by omega)
  · rw [roundTo_eq_self (two_zpow_pos s), roundTo_eq_self (two_zpow_pos s)]
    exact exists_congr fun n => (h.coarsen_zpow (show j ≤ s by omega)).eq_iff n rfl

theorem roundFloat_alike (hx : 0 < x) (hj : j + m + 1 ≤ Int.log 2 x) (h : Alike (2 ^ j) x y) :
    roundFloat d m l x = roundFloat d m l y ∧
      (roundFloat d m l x = x ↔ roundFloat d m l y = y) := by
  have hlog := h.log_eq hx (by omega)
  unfold roundFloat ulp
  rw [hlog]
  exact roundTo_zpow_alike (by omega) h

theorem roundNormal_alike (hx : 0 < x) (hj : j + m + 1 ≤ Int.log 2 x) (h : Alike (2 ^ j) x y) :
    roundNormal d m x = roundNormal d m y := by
  have hlog := h.log_eq hx (by omega)
  unfold roundNormal
  rw [hlog]
  exact (roundTo_zpow_alike (by omega) h).1

/-- All values below half the least number are rounded alike, and none of them exactly. -/
theorem roundFloat_tiny (hx : 0 < x) (hx' : x < 2 ^ (l - m - 1)) (hy : 0 < y)
    (hy' : y < 2 ^ (l - m - 1)) :
    roundFloat d m l x = roundFloat d m l y ∧
      (roundFloat d m l x = x ↔ roundFloat d m l y = y) := by
  have hulp : ∀ z : K, 0 < z → z < 2 ^ (l - m - 1) → ulp m l z = 2 ^ (l - m) := by
    intro z hz hz'
    have hlog : Int.log 2 z < l - m - 1 :=
      (Int.lt_zpow_iff_log_lt one_lt_two hz).mp (by exact_mod_cast hz')
    rw [ulp, max_eq_right (by omega)]
  have halike : Alike (2 ^ (l - m - 1)) x y :=
    Alike.of_between (two_zpow_pos _) (b := 0) 0 (by simp) hx (by rwa [zero_add]) hy
      (by rwa [zero_add])
  rw [roundFloat, roundFloat, hulp x hx hx', hulp y hy hy']
  exact roundTo_zpow_alike (by omega) halike

theorem roundNormal_tiny (hx : 0 < x) (hx' : x < 2 ^ (l - m - 1)) : roundNormal d m x < 2 ^ l := by
  have hlog : Int.log 2 x < l - m - 1 :=
    (Int.lt_zpow_iff_log_lt one_lt_two hx).mp (by exact_mod_cast hx')
  have hpos : (0 : K) < 2 ^ (Int.log 2 x - m) := two_zpow_pos _
  have hpow : ((2 ^ (m + 1) : ℤ) : K) * 2 ^ (Int.log 2 x - m) = 2 ^ (Int.log 2 x + 1) := by
    push_cast
    rw [← zpow_natCast, ← two_zpow_add]
    congr 1
    push_cast
    ring
  have hint : roundInt d (x / 2 ^ (Int.log 2 x - m)) ≤ 2 ^ (m + 1) := by
    apply roundInt_le
    rw [div_le_iff₀ hpos, hpow]
    exact (lt_zpow_log x).le
  have hle : roundNormal d m x ≤ 2 ^ (Int.log 2 x + 1) := by
    rw [roundNormal, roundTo, ← hpow]
    exact mul_le_mul_of_nonneg_right (by exact_mod_cast hint) hpos.le
  exact hle.trans_lt (zpow_lt_zpow_right₀ one_lt_two (by omega))

@[simp] theorem roundTo_zero : roundTo d q (0 : K) = 0 := by
  rw [roundTo, zero_div, roundInt_zero, Int.cast_zero, zero_mul]

@[simp] theorem roundFloat_zero : roundFloat d m l (0 : K) = 0 := roundTo_zero

theorem roundFloat_nonneg (hx : 0 ≤ x) : 0 ≤ roundFloat d m l x := by
  have hint := roundInt_nonneg (d := d) (div_nonneg hx (ulp_pos (m := m) (l := l) (x := x)).le)
  exact mul_nonneg (by exact_mod_cast hint) ulp_pos.le

/-! ## The rounded value is the right one -/

/-- A value is below the power of two that follows the exponent of its spacing. -/
theorem lt_two_ulp (x : K) : x < 2 ^ (m + 1) * ulp m l x := by
  have hulp : 2 ^ (m + 1) * ulp m l x = 2 ^ (max (Int.log 2 x) l + 1) := by
    rw [ulp, ← zpow_natCast, ← two_zpow_add]
    congr 1
    push_cast
    ring
  rw [hulp]
  exact (lt_zpow_log x).trans_le (zpow_le_zpow_right₀ one_le_two (by omega))

theorem roundFloat_isFloat (hx : 0 ≤ x) : IsFloat m l (roundFloat d m l x) := by
  set e := max (Int.log 2 x) l with he
  have hpos : (0 : K) < 2 ^ (e - m) := two_zpow_pos _
  obtain ⟨n, hn⟩ := Int.eq_ofNat_of_zero_le
    (roundInt_nonneg (d := d) (div_nonneg hx (ulp_pos (m := m) (l := l)).le))
  have hround : roundFloat d m l x = n * 2 ^ (e - m) := by
    rw [roundFloat, roundTo, hn, ulp, Int.cast_natCast]
  have hle : n ≤ 2 ^ (m + 1) := by
    have hbound : x / ulp m l x ≤ ((2 ^ (m + 1) : ℤ) : K) := by
      rw [div_le_iff₀ ulp_pos]
      push_cast
      exact (lt_two_ulp x).le
    have hint := roundInt_le (d := d) hbound
    rw [hn] at hint
    exact_mod_cast hint
  obtain hlt | heq := hle.lt_or_eq
  · exact ⟨n, e, le_max_right _ _, hlt, hround⟩
  · -- Rounding up to the next power of two.
    refine ⟨2 ^ m, e + 1, by omega, Nat.pow_lt_pow_right one_lt_two (by omega), ?_⟩
    rw [hround, heq]
    have hexp : e + 1 - m = 1 + (e - m) := by ring
    rw [hexp, two_zpow_add]
    push_cast
    ring

/-- A number of the format is a multiple of the spacing around `x`, or is below the power of
two at which that spacing begins. -/
theorem IsFloat.multiple_or_lt (hy : IsFloat m l y) (x : K) :
    (∃ n : ℤ, y = n * ulp m l x) ∨ (l ≤ Int.log 2 x ∧ y < 2 ^ Int.log 2 x) := by
  obtain ⟨n, e, he, hn, rfl⟩ := hy
  by_cases hcoarse : max (Int.log 2 x) l ≤ e
  · left
    obtain ⟨k, hk⟩ := zpow_multiple (K := K) (show max (Int.log 2 x) l - m ≤ e - m by omega)
    refine ⟨n * k, ?_⟩
    rw [hk, ulp]
    push_cast
    ring
  · right
    refine ⟨by omega, ?_⟩
    have hcast : (n : K) < 2 ^ (m + 1) := by exact_mod_cast hn
    calc (n : K) * 2 ^ (e - m) < 2 ^ (m + 1) * 2 ^ (e - m) :=
          mul_lt_mul_of_pos_right hcast (two_zpow_pos _)
      _ = 2 ^ (e + 1) := by
          rw [← zpow_natCast, ← two_zpow_add]
          congr 1
          push_cast
          ring
      _ ≤ 2 ^ Int.log 2 x := zpow_le_zpow_right₀ one_le_two (by omega)

/-- A number of the format is rounded to itself. -/
theorem roundFloat_eq_self (hx : 0 < x) (h : IsFloat m l x) : roundFloat d m l x = x := by
  obtain hmultiple | ⟨_, hlt⟩ := h.multiple_or_lt x
  · exact (roundTo_eq_self ulp_pos).mpr hmultiple
  · exact absurd hlt (not_lt.mpr (zpow_log_le hx))

omit [IsStrictOrderedRing K] in
/-- The power of two at which the spacing begins is a multiple of it. -/
theorem zpow_log_multiple (h : l ≤ Int.log 2 x) :
    (2 : K) ^ Int.log 2 x = ((2 ^ m : ℤ) : K) * ulp m l x := by
  rw [ulp, max_eq_left h]
  push_cast
  rw [← zpow_natCast, ← two_zpow_add]
  congr 1
  ring

theorem error_eq (n : K) : x - n * ulp m l x = (x / ulp m l x - n) * ulp m l x := by
  have hpos := ulp_pos (m := m) (l := l) (x := x)
  field_simp

theorem roundFloat_nearest_multiple (hd : d.nearest) (n : ℤ) :
    |x - roundFloat d m l x| ≤ |x - n * ulp m l x| := by
  rw [roundFloat, roundTo, error_eq, error_eq, abs_mul, abs_mul]
  exact mul_le_mul_of_nonneg_right (roundInt_nearest hd n) (abs_nonneg _)

/-- No number of the format is nearer. -/
theorem roundFloat_nearest (hd : d.nearest) (hx : 0 < x) (hy : IsFloat m l y) :
    |x - roundFloat d m l x| ≤ |x - y| := by
  obtain ⟨n, rfl⟩ | ⟨hemin, hlt⟩ := hy.multiple_or_lt x
  · exact roundFloat_nearest_multiple hd n
  · have hmultiple := roundFloat_nearest_multiple (m := m) (l := l) (x := x) hd (2 ^ m)
    rw [← zpow_log_multiple hemin] at hmultiple
    have hlow := zpow_log_le hx
    rw [abs_of_nonneg (sub_nonneg.mpr hlow)] at hmultiple
    rw [abs_of_nonneg (show 0 ≤ x - y by linarith)]
    linarith

/-- Rounding toward zero gives the greatest number that is not above. -/
theorem roundFloat_towardZero (hx : 0 < x) (hy : IsFloat m l y) (hyx : y ≤ x) :
    y ≤ roundFloat .towardZero m l x ∧ roundFloat .towardZero m l x ≤ x := by
  have hpos := ulp_pos (m := m) (l := l) (x := x)
  have hbelow : ∀ n : ℤ, n * ulp m l x ≤ x →
      n * ulp m l x ≤ roundFloat .towardZero m l x := by
    intro n hn
    have hint : n ≤ roundInt .towardZero (x / ulp m l x) :=
      le_roundInt ((le_div_iff₀ hpos).mpr hn)
    exact mul_le_mul_of_nonneg_right (by exact_mod_cast hint) hpos.le
  constructor
  · obtain ⟨n, rfl⟩ | ⟨hemin, hlt⟩ := hy.multiple_or_lt x
    · exact hbelow n hyx
    · have hlow := zpow_log_le hx
      rw [zpow_log_multiple (m := m) hemin] at hlt hlow
      exact hlt.le.trans (hbelow _ hlow)
  · exact (le_div_iff₀ hpos).mp (Int.floor_le _)

/-- Rounding away from zero gives the least number that is not below. -/
theorem roundFloat_awayFromZero (hx : 0 < x) (hy : IsFloat m l y) (hxy : x ≤ y) :
    roundFloat .awayFromZero m l x ≤ y ∧ x ≤ roundFloat .awayFromZero m l x := by
  have hpos := ulp_pos (m := m) (l := l) (x := x)
  constructor
  · obtain ⟨n, rfl⟩ | ⟨_, hlt⟩ := hy.multiple_or_lt x
    · have hint : roundInt .awayFromZero (x / ulp m l x) ≤ n :=
        roundInt_le ((div_le_iff₀ hpos).mpr hxy)
      exact mul_le_mul_of_nonneg_right (by exact_mod_cast hint) hpos.le
    · exact absurd (hxy.trans_lt hlt) (not_lt.mpr (zpow_log_le hx))
  · exact (div_le_iff₀ hpos).mp (Int.le_ceil _)

end Rounding
end Riscbox

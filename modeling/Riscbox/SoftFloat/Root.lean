import Riscbox.SoftFloat.Quotient

/-!
# Square roots

Newton's iteration from above ends at the integer root of two words, by both ways of
dividing, and gives the correctly rounded root of a number.
-/

namespace Riscbox
namespace SoftFloat

open Rounding Format

variable {F : Format} {rm : RoundingMode} {fflags : BitVec 32} {a a1 : F.Word}

/-! ## The first value of the iteration -/

theorem pred_toNat (h : a1 ≠ 0) : (a1 - 1).toNat = a1.toNat - 1 := by
  have hne : a1.toNat ≠ 0 := fun hzero => h (toNat_eq_zero_iff.mp hzero)
  have hlt := a1.isLt
  have hsum : 2 ^ F.fSize - 1 + a1.toNat = a1.toNat - 1 + 2 ^ F.fSize := by omega
  rw [BitVec.toNat_sub, one_toNat, hsum, Nat.add_mod_right]
  exact Nat.mod_eq_of_lt (by omega)

theorem le_two_pow_clz (h : a1 ≠ 0) : a1.toNat ≤ 2 ^ (F.fSize - clz (a1 - 1)) := by
  have hpred := pred_toNat h
  by_cases hone : a1 - 1 = 0
  · have hzero := toNat_eq_zero_iff.mpr hone
    have hclz : clz (a1 - 1) = F.fSize := by rw [clz, if_pos hone]
    rw [hclz, Nat.sub_self, pow_zero]
    omega
  · obtain ⟨_, _, hhigh⟩ := clz_bounds hone
    omega

theorem clz_pred_ge (h : a1 ≠ 0) (hsmall : a1.toNat < 2 ^ (F.fSize - 2)) :
    2 ≤ clz (a1 - 1) := by
  have hpred := pred_toNat h
  have hsize := F.fSize_rnd
  by_cases hone : a1 - 1 = 0
  · rw [clz, if_pos hone]
    omega
  · obtain ⟨_, hlow, _⟩ := clz_bounds hone
    by_contra hlt
    have hpow : 2 ^ (F.fSize - 2) ≤ 2 ^ (F.fSize - 1 - clz (a1 - 1)) :=
      Nat.pow_le_pow_right (by decide) (by omega)
    omega

theorem sqrtBits_eq (h : a1 ≠ 0) : sqrtBits a1 0 = 2 * F.fSize - clz (a1 - 1) := if_pos h

/-- The exponent of the first value. -/
def firstExp (a1 : F.Word) : ℕ := (sqrtBits a1 0 + 1) / 2

theorem firstExp_lt (h : a1 ≠ 0) (hsmall : a1.toNat < 2 ^ (F.fSize - 2)) :
    firstExp a1 ≤ F.fSize - 1 := by
  have hclz := clz_pred_ge h hsmall
  rw [firstExp, sqrtBits_eq h]
  omega

theorem clz_le (x : F.Word) : clz x ≤ F.fSize := by
  unfold clz
  split <;> omega

/-- The iteration starts at the root or above. -/
theorem sqrt_le_first (h : a1 ≠ 0) : Nat.sqrt (pair a1 0) ≤ 2 ^ firstExp a1 := by
  have hle := le_two_pow_clz h
  have hclz := clz_le (a1 - 1)
  have hpair : pair a1 0 ≤ 2 ^ sqrtBits a1 0 := by
    rw [sqrtBits_eq h, pair, zero_toNat, Nat.add_zero]
    calc a1.toNat * 2 ^ F.fSize ≤ 2 ^ (F.fSize - clz (a1 - 1)) * 2 ^ F.fSize :=
          Nat.mul_le_mul_right _ hle
      _ = 2 ^ (2 * F.fSize - clz (a1 - 1)) := by
          rw [← pow_add]
          congr 1
          omega
  have hsquare : 2 ^ sqrtBits a1 0 ≤ 2 ^ firstExp a1 * 2 ^ firstExp a1 := by
    rw [← pow_add]
    exact Nat.pow_le_pow_right (by decide) (by unfold firstExp; omega)
  rw [← Nat.lt_succ_iff, Nat.sqrt_lt]
  refine lt_of_le_of_lt (hpair.trans hsquare) ?_
  exact Nat.mul_lt_mul'' (Nat.lt_succ_self _) (Nat.lt_succ_self _)

/-! ## The iteration -/

theorem two_toNat {w : ℕ} (hw : 2 ≤ w) : (2 : BitVec w).toNat = 2 := by
  have hpow : 2 < 2 ^ w := lt_of_lt_of_le (by decide) (Nat.pow_le_pow_right (by decide) hw)
  exact Nat.mod_eq_of_lt hpow

theorem newtonLong_sqrt {a s : BitVec (F.fSize + F.fSize)} (ha : 0 < a.toNat)
    (hfit : a.toNat + s.toNat < 2 ^ (F.fSize + F.fSize)) (hroot : Nat.sqrt a.toNat ≤ s.toNat) :
    (newtonLong a s).toNat = Nat.sqrt a.toNat := by
  induction hn : s.toNat using Nat.strong_induction_on generalizing s with | _ n ih
  rw [← hn] at ih
  clear hn
  have hpos : 0 < s.toNat := (Nat.sqrt_pos.mpr ha).trans_le hroot
  have hsize := F.fSize_rnd
  have hdiv : a.toNat / s.toNat ≤ a.toNat := Nat.div_le_self _ _
  have hstep : ((a / s + s) / 2).toNat = (a.toNat / s.toNat + s.toNat) / 2 := by
    rw [BitVec.toNat_udiv, BitVec.toNat_add, BitVec.toNat_udiv, two_toNat (by omega),
      Nat.mod_eq_of_lt (by omega)]
  have hnext := Iterations.sqrt_le_newton (n := a.toNat) hpos
  rw [newtonLong]
  by_cases hstop : s ≤ (a / s + s) / 2
  · rw [if_pos hstop]
    rw [BitVec.le_def, hstep] at hstop
    exact Iterations.eq_sqrt_of_newton hpos hroot hstop
  · rw [if_neg hstop]
    rw [BitVec.le_def, hstep] at hstop
    have hlower := not_le.mp hstop
    rw [← hstep] at hlower hnext
    exact ih _ hlower (by omega) hnext rfl

/-- The divisor stays above the upper word, as `divrem_u` asserts. -/
theorem upper_lt_root (h : a1 ≠ 0) (hsmall : a1.toNat < 2 ^ (F.fSize - 2)) :
    a1.toNat < Nat.sqrt (pair a1 0) := by
  have hne : a1.toNat ≠ 0 := fun hzero => h (toNat_eq_zero_iff.mp hzero)
  have hsize := F.fSize_rnd
  have hpow : 2 ^ F.fSize = 4 * 2 ^ (F.fSize - 2) := by
    have hfour : (4 : ℕ) = 2 ^ 2 := rfl
    rw [hfour, ← pow_add]
    congr 1
    omega
  have hsquare : (a1.toNat + 1) * (a1.toNat + 1) ≤ pair a1 0 := by
    rw [pair, zero_toNat, Nat.add_zero, hpow]
    nlinarith [Nat.pos_of_ne_zero hne]
  exact Nat.le_sqrt.mpr hsquare

theorem root_lt (hsmall : a1.toNat < 2 ^ (F.fSize - 2)) :
    Nat.sqrt (pair a1 0) < 2 ^ (F.fSize - 1) := by
  have hsize := F.fSize_rnd
  rw [Nat.sqrt_lt, pair, zero_toNat, Nat.add_zero]
  calc a1.toNat * 2 ^ F.fSize < 2 ^ (F.fSize - 2) * 2 ^ F.fSize :=
        Nat.mul_lt_mul_of_pos_right hsmall (Nat.two_pow_pos _)
    _ = 2 ^ (F.fSize - 1) * 2 ^ (F.fSize - 1) := by
        rw [← pow_add, ← pow_add]
        congr 1
        omega

theorem upper_pair_pos (h : a1 ≠ 0) : 0 < pair a1 0 := by
  have hne : a1.toNat ≠ 0 := fun hzero => h (toNat_eq_zero_iff.mp hzero)
  rw [pair, zero_toNat, Nat.add_zero]
  exact Nat.mul_pos (Nat.pos_of_ne_zero hne) (Nat.two_pow_pos _)

/-- No sum of the iteration leaves its word. -/
theorem newton_fits {s : ℕ} (h : a1 ≠ 0) (hsmall : a1.toNat < 2 ^ (F.fSize - 2))
    (hroot : Nat.sqrt (pair a1 0) ≤ s) (hs : s ≤ 2 ^ (F.fSize - 1)) :
    pair a1 0 / s + s < 2 ^ F.fSize := by
  have hfull := two_pow_half (F := F)
  have hsize := F.fSize_rnd
  have hpos := upper_pair_pos h
  obtain heq | hlt := hs.eq_or_lt
  · have hquotient : pair a1 0 / s < 2 ^ (F.fSize - 1) := by
      rw [heq, Nat.div_lt_iff_lt_mul (Nat.two_pow_pos _), ← Nat.sqrt_lt]
      exact root_lt hsmall
    omega
  · -- The root is two below the bound, since the lower word is zero.
    have hquotient := Iterations.div_le_sqrt hpos hroot
    have hgap : Nat.sqrt (pair a1 0) + 1 < 2 ^ (F.fSize - 1) := by
      have hquarter : 2 ^ (F.fSize - 1) = 2 * 2 ^ (F.fSize - 2) := by
        rw [← pow_succ']
        congr 1
        omega
      have hroot2 : Nat.sqrt (pair a1 0) < 2 ^ (F.fSize - 1) - 1 := by
        rw [Nat.sqrt_lt, pair, zero_toNat, Nat.add_zero, hfull]
        have hbound : a1.toNat + 1 ≤ 2 ^ (F.fSize - 2) := hsmall
        obtain ⟨k, hk⟩ : ∃ k, 2 ^ (F.fSize - 1) = k + 1 := ⟨2 ^ (F.fSize - 1) - 1, by
          have := Nat.two_pow_pos (F.fSize - 1)
          omega⟩
        rw [hk] at hquarter ⊢
        rw [Nat.add_sub_cancel]
        nlinarith
      omega
    omega

theorem newton_sqrt {s : F.Word} (h : a1 ≠ 0) (hsmall : a1.toNat < 2 ^ (F.fSize - 2))
    (hroot : Nat.sqrt (pair a1 0) ≤ s.toNat) (hs : s.toNat ≤ 2 ^ (F.fSize - 1)) :
    (newton a1 0 s).toNat = Nat.sqrt (pair a1 0) := by
  induction hn : s.toNat using Nat.strong_induction_on generalizing s with | _ n ih
  rw [← hn] at ih
  clear hn
  have hupper := (upper_lt_root h hsmall).trans_le hroot
  have hfits := newton_fits h hsmall hroot hs
  have hsize := F.fSize_rnd
  have hquotient : (divremU a1 0 s).1.toNat = pair a1 0 / s.toNat :=
    (divremU_isQuotient (BitVec.lt_def.mpr hupper)).quotient
  have hstep : (((divremU a1 0 s).1 + s) / 2).toNat = (pair a1 0 / s.toNat + s.toNat) / 2 := by
    rw [BitVec.toNat_udiv, BitVec.toNat_add, hquotient, two_toNat (by omega),
      Nat.mod_eq_of_lt hfits]
  have hnext := Iterations.sqrt_le_newton (n := pair a1 0) (show 0 < s.toNat by omega)
  rw [newton]
  by_cases hstop : s ≤ ((divremU a1 0 s).1 + s) / 2
  · rw [if_pos hstop]
    rw [BitVec.le_def, hstep] at hstop
    exact Iterations.eq_sqrt_of_newton (by omega) hroot hstop
  · rw [if_neg hstop]
    rw [BitVec.le_def, hstep] at hstop
    have hlower := not_le.mp hstop
    rw [← hstep] at hlower hnext
    exact ih _ hlower hnext (by omega) rfl

/-! ## The root of two words -/

theorem first_toNat (h : a1 ≠ 0) (hsmall : a1.toNat < 2 ^ (F.fSize - 2)) :
    ((1 : BitVec (F.fSize + F.fSize)) <<< firstExp a1).toNat = 2 ^ firstExp a1 ∧
      (F.bit (firstExp a1)).toNat = 2 ^ firstExp a1 := by
  have hfirst := firstExp_lt h hsmall
  have hsize := F.fSize_rnd
  have hone : (1 : BitVec (F.fSize + F.fSize)).toNat = 1 := BitVec.toNat_one (by omega)
  refine ⟨?_, bit_toNat (by omega)⟩
  rw [BitVec.toNat_shiftLeft, hone, Nat.one_shiftLeft]
  exact Nat.mod_eq_of_lt (Nat.pow_lt_pow_right (by decide) (by omega))

/-- The root of a number in two words, and whether something is left of it. -/
structure IsRootOf (n : ℕ) (r : Bool × F.Word) : Prop where
  root : r.2.toNat = Nat.sqrt n
  inexact : r.1 = false ↔ Nat.sqrt n * Nat.sqrt n = n

theorem long_fits (h : a1 ≠ 0) (hsmall : a1.toNat < 2 ^ (F.fSize - 2)) :
    pair a1 0 + 2 ^ firstExp a1 < 2 ^ (F.fSize + F.fSize) := by
  have hsize := F.fSize_rnd
  have hhalf := two_pow_half (F := F)
  have hfirst : 2 ^ firstExp a1 ≤ 2 ^ (F.fSize - 1) :=
    Nat.pow_le_pow_right (by decide) (firstExp_lt h hsmall)
  have hupper : pair a1 0 < 2 ^ (F.fSize - 2) * 2 ^ F.fSize := by
    rw [pair, zero_toNat, Nat.add_zero]
    exact Nat.mul_lt_mul_of_pos_right hsmall (Nat.two_pow_pos _)
  have hdouble : 2 ^ (F.fSize + F.fSize) = 2 ^ 2 * (2 ^ (F.fSize - 2) * 2 ^ F.fSize) := by
    rw [← pow_add, ← pow_add]
    congr 1
    omega
  have hone : 1 * 2 ^ F.fSize ≤ 2 ^ (F.fSize - 2) * 2 ^ F.fSize :=
    Nat.mul_le_mul_right _ (Nat.two_pow_pos _)
  omega

/-- Nothing is left of a square in one integer. -/
theorem long_inexact_iff {w : ℕ} {n s : BitVec w} (hs : s.toNat = Nat.sqrt n.toNat) :
    decide (n - s * s ≠ 0) = false ↔ Nat.sqrt n.toNat * Nat.sqrt n.toNat = n.toNat := by
  have hsquare : Nat.sqrt n.toNat * Nat.sqrt n.toNat < 2 ^ w :=
    (Nat.sqrt_le _).trans_lt n.isLt
  rw [decide_eq_false_iff_not, not_not, sub_eq_zero, ← BitVec.toNat_inj, BitVec.toNat_mul, hs,
    Nat.mod_eq_of_lt hsquare]
  exact eq_comm

/-- Nothing is left of a square in two words. -/
theorem words_inexact_iff {n : ℕ} {sq : F.Word × F.Word} (hsq : pair sq.1 sq.2 = n) :
    decide (sq.2 ≠ 0 ∨ sq.1 ≠ a1) = false ↔ n = pair a1 0 := by
  rw [← hsq, decide_eq_false_iff_not, not_or, not_not, not_not]
  constructor
  · rintro ⟨h0, h1⟩
    rw [h0, h1]
  · intro heq
    obtain ⟨hhigh, hlow⟩ := pair_words sq.1 sq.2
    obtain ⟨hhigh', hlow'⟩ := pair_words a1 0
    rw [heq] at hhigh hlow
    exact ⟨BitVec.eq_of_toNat_eq (hlow.trans hlow'.symm),
      BitVec.eq_of_toNat_eq (hhigh.trans hhigh'.symm)⟩

theorem sqrtremU_isRootOf (h : a1 ≠ 0) (hsmall : a1.toNat < 2 ^ (F.fSize - 2)) :
    IsRootOf (pair a1 0) (sqrtremU a1 0) := by
  have hpos := upper_pair_pos h
  have hfirst := sqrt_le_first h
  obtain ⟨hlong, hword⟩ := first_toNat h hsmall
  have hfirstLe : 2 ^ firstExp a1 ≤ 2 ^ (F.fSize - 1) :=
    Nat.pow_le_pow_right (by decide) (firstExp_lt h hsmall)
  unfold sqrtremU
  rw [if_neg (fun hz => h hz.1)]
  split
  · -- In one integer of two words.
    have hvalue := long_toNat a1 0
    have hfit := long_fits h hsmall
    have hnewton := newtonLong_sqrt (a := a1.setWidth _ <<< F.fSize ||| (0 : F.Word).setWidth _)
      (s := (1 : BitVec _) <<< firstExp a1) (by rw [hvalue]; exact hpos) (by rw [hvalue, hlong]; exact hfit)
      (by rw [hvalue, hlong]; exact hfirst)
    have hinexact := long_inexact_iff hnewton
    rw [hvalue] at hnewton hinexact
    dsimp only
    refine ⟨?_, hinexact⟩
    dsimp only
    rw [BitVec.toNat_setWidth]
    refine (congrArg (· % 2 ^ F.fSize) hnewton).trans (Nat.mod_eq_of_lt ?_)
    exact (root_lt hsmall).trans_le (Nat.pow_le_pow_right (by decide) (Nat.sub_le _ _))
  · -- In words, with the square of the root to compare with.
    have hnewton := newton_sqrt (s := F.bit (firstExp a1)) h hsmall (by rw [hword]; exact hfirst)
      (by rw [hword]; exact hfirstLe)
    have hmul := mulU_pair (newton a1 0 (F.bit (firstExp a1))) (newton a1 0 (F.bit (firstExp a1)))
    rw [hnewton] at hmul
    exact ⟨hnewton, words_inexact_iff hmul⟩

/-! ## The root of a number -/

theorem bias_cast : ((F.expMask / 2 : ℕ) : ℤ) = F.bias := by
  unfold bias
  push_cast
  rfl

theorem scaled_root {e : ℤ} {m : ℕ} (heven : e % 2 = 0) :
    scaled F (e / 2 + (F.expMask / 2 : ℕ))
        (Real.sqrt ((m * 2 ^ (F.fSize - 4 - F.mantSize) * 2 ^ F.fSize : ℕ) : ℝ)) =
      Real.sqrt (m * 2 ^ (e - F.mantSize)) := by
  have hsize := F.fSize_rnd
  have hge := F.rndSize_ge
  have himant := imantSize_eq (F := F)
  have hpower : (2 : ℝ) ^ (e / 2 + (F.expMask / 2 : ℕ) - F.bias - F.imantSize) =
      Real.sqrt (2 ^ (e - 2 * F.imantSize)) := by
    rw [bias_cast]
    symm
    have hhalf : e - 2 * F.imantSize =
        (e / 2 + F.bias - F.bias - F.imantSize) + (e / 2 + F.bias - F.bias - F.imantSize) := by
      omega
    rw [hhalf, two_zpow_add]
    exact Real.sqrt_mul_self (two_zpow_pos _).le
  rw [scaled, hpower, ← Real.sqrt_mul (Nat.cast_nonneg _)]
  congr 1
  push_cast
  rw [← zpow_natCast, ← zpow_natCast, mul_assoc, mul_assoc, ← two_zpow_add, ← two_zpow_add]
  congr 2
  rw [himant]
  omega

theorem IsRootOf.word {n : ℕ} {r : Bool × F.Word} (h : IsRootOf n r) :
    (if r.1 then r.2 ||| 1 else r.2).toNat = sticky (Nat.sqrt n) r.1 := by
  rw [← h.root, sticky]
  split
  · rw [BitVec.toNat_or, one_toNat]
  · rfl

theorem IsRootOf.alike {n : ℕ} {r : Bool × F.Word} (h : IsRootOf n r) :
    Alike 2 ((if r.1 then r.2 ||| 1 else r.2).toNat : ℝ) (Real.sqrt n) := by
  rw [h.word]
  apply sticky_alike
  · exact Real.nat_sqrt_le_real_sqrt
  · exact Real.real_sqrt_lt_nat_sqrt_succ
  · rw [h.inexact, Real.sqrt_eq_iff_mul_self_eq (Nat.cast_nonneg _) (Nat.cast_nonneg _)]
    norm_cast
    exact eq_comm

/-- The mantissa at an even exponent. -/
structure EvenUnpacked (a : F.Word) (e : ℤ) (m : F.Word) : Prop where
  even : e % 2 = 0
  low : 2 ^ F.mantSize ≤ m.toNat
  high : m.toNat < 2 ^ (F.mantSize + 2)
  value : magnitude a = m.toNat * 2 ^ (e - F.mantSize)

theorem Unpacked.toEven {e : ℤ} {m : F.Word} (h : Unpacked a e m) :
    EvenUnpacked a
      (if (e - F.bias) % 2 = 1 then (e - F.bias - 1, m <<< 1) else (e - F.bias, m)).1
      (if (e - F.bias) % 2 = 1 then (e - F.bias - 1, m <<< 1) else (e - F.bias, m)).2 := by
  have hsize := F.fSize_rnd
  have hlow := h.low
  have hhigh := h.high
  have hsucc : 2 ^ (F.mantSize + 1) = 2 * 2 ^ F.mantSize := pow_succ' 2 _
  have hsucc2 : 2 ^ (F.mantSize + 2) = 2 * 2 ^ (F.mantSize + 1) := pow_succ' 2 _
  split
  case isTrue hodd =>
    have hshift : (m <<< 1).toNat = m.toNat * 2 ^ 1 := h.shift (by omega)
    dsimp only
    refine ⟨by omega, by omega, by omega, ?_⟩
    rw [h.value, hshift, Nat.cast_mul, mul_assoc]
    congr 1
    have hexp : e - F.bias - F.mantSize = 1 + (e - F.bias - 1 - F.mantSize) := by ring
    rw [hexp, two_zpow_add]
    norm_num
  case isFalse heven =>
    dsimp only
    exact ⟨by omega, hlow, by omega, h.value⟩

/-- The radicand's upper word: its two highest bits are clear, one of the next two is set. -/
theorem EvenUnpacked.raised {e : ℤ} {m : F.Word} (h : EvenUnpacked a e m) :
    (m <<< (F.fSize - 4 - F.mantSize)).toNat = m.toNat * 2 ^ (F.fSize - 4 - F.mantSize) ∧
      2 ^ (F.fSize - 4) ≤ m.toNat * 2 ^ (F.fSize - 4 - F.mantSize) ∧
      m.toNat * 2 ^ (F.fSize - 4 - F.mantSize) < 2 ^ (F.fSize - 2) := by
  have hsize := F.fSize_rnd
  have hge := F.rndSize_ge
  have hupper : m.toNat * 2 ^ (F.fSize - 4 - F.mantSize) < 2 ^ (F.fSize - 2) := by
    calc m.toNat * 2 ^ (F.fSize - 4 - F.mantSize)
        < 2 ^ (F.mantSize + 2) * 2 ^ (F.fSize - 4 - F.mantSize) :=
          Nat.mul_lt_mul_of_pos_right h.high (Nat.two_pow_pos _)
      _ = 2 ^ (F.fSize - 2) := by
          rw [← pow_add]
          congr 1
          omega
  have hlower : 2 ^ (F.fSize - 4) ≤ m.toNat * 2 ^ (F.fSize - 4 - F.mantSize) := by
    calc 2 ^ (F.fSize - 4) = 2 ^ F.mantSize * 2 ^ (F.fSize - 4 - F.mantSize) := by
          rw [← pow_add]
          congr 1
          omega
      _ ≤ m.toNat * 2 ^ (F.fSize - 4 - F.mantSize) := Nat.mul_le_mul_right _ h.low
  refine ⟨?_, hlower, hupper⟩
  apply shiftLeft_toNat
  exact hupper.trans (Nat.pow_lt_pow_right (by decide) (by omega))

theorem sqrtFinite_isRounded (ha : ¬ IsZero a) :
    IsRounded F rm false (Real.sqrt (magnitude a)) fflags (sqrtFinite a rm fflags) := by
  have hua := (unpackNormal_unpacked ha).toEven
  unfold sqrtFinite
  generalize unpackNormal a = ua at hua ⊢
  obtain ⟨ea, ma⟩ := ua
  dsimp only at hua ⊢
  rw [bias_cast]
  generalize (if (ea - F.bias) % 2 = 1 then (ea - F.bias - 1, ma <<< 1) else (ea - F.bias, ma)) =
    even at hua ⊢
  obtain ⟨e, m⟩ := even
  dsimp only at hua ⊢
  have hsize := F.fSize_rnd
  have hge := F.rndSize_ge
  obtain ⟨hword, hlower, hupper⟩ := hua.raised
  have hne : m <<< (F.fSize - 4 - F.mantSize) ≠ 0 := by
    intro hzero
    rw [← toNat_eq_zero_iff, hword] at hzero
    have := Nat.two_pow_pos (F.fSize - 4)
    omega
  have hroot := sqrtremU_isRootOf hne (by rwa [hword])
  have hpair : pair (m <<< (F.fSize - 4 - F.mantSize)) 0 =
      m.toNat * 2 ^ (F.fSize - 4 - F.mantSize) * 2 ^ F.fSize := by
    rw [pair, zero_toNat, Nat.add_zero, hword]
  have hexact : scaled F (e / 2 + F.bias) (Real.sqrt (pair (m <<< (F.fSize - 4 - F.mantSize)) 0)) =
      Real.sqrt (magnitude a) := by
    rw [hpair, ← bias_cast, scaled_root hua.even, hua.value]
  rw [← hexact]
  apply normalizeSf_sticky
  · rw [Small, hroot.word, fSize_half]
    apply sticky_le_half
    rw [← fSize_half]
    exact root_lt (by rwa [hword])
  · exact hroot.alike
  · right
    rw [hroot.word]
    refine le_trans ?_ (le_sticky _ _)
    rw [Nat.le_sqrt, hpair]
    calc 2 ^ (F.mantSize + 2) * 2 ^ (F.mantSize + 2) ≤ 2 ^ (F.fSize - 4) * 2 ^ F.fSize := by
          rw [← pow_add, ← pow_add]
          exact Nat.pow_le_pow_right (by decide) (by omega)
      _ ≤ _ := Nat.mul_le_mul_right _ hlower

/-- What the standard asks of a square root. -/
structure IsSquareRoot (rm : RoundingMode) (a : F.Word) (fflags : BitVec 32) (r : F.Result) :
    Prop where
  nan : IsNan a → r = nanResult F (decide (IsSignaling a)) fflags
  invalid : ¬ IsNan a → ¬ IsZero a → signOf a = true → r = invalidResult F fflags
  infinite : IsInfinite a → signOf a = false → r = (a, fflags)
  zero : IsZero a → r = (a, fflags)
  finite : IsFinite a → signOf a = false →
    IsRounded F rm false (Real.sqrt (magnitude a)) fflags r

/-- A zero is determined by its sign. -/
theorem IsZero.eq_zero (h : IsZero a) : a = SoftFloat.zero F (signOf a) := by
  apply eq_of_magnitude
  · exact (signOf_packSf (Nat.zero_le _) _).symm
  · rw [magnitude_eq_zero_iff.mpr h]
    exact magnitude_zero.symm

theorem sqrtSf_zero (h : IsZero a) : sqrtSf a rm fflags = (a, fflags) := by
  have heq := h.eq_zero
  unfold sqrtSf
  simp only [← isZero_iff]
  rw [if_neg (finite_zero h), if_pos h]
  split
  case isTrue hsign => rfl
  case isFalse hsign =>
    rw [Bool.not_eq_true] at hsign
    rw [hsign] at heq
    exact Prod.ext heq.symm rfl

theorem sqrtSf_finite (h : IsFinite a) (hsign : signOf a = false) :
    IsRounded F rm false (Real.sqrt (magnitude a)) fflags (sqrtSf a rm fflags) := by
  unfold sqrtSf
  simp only [← isZero_iff]
  rw [if_neg h, if_neg (by rw [hsign]; decide)]
  by_cases hzero : IsZero a
  · rw [if_pos hzero, magnitude_eq_zero_iff.mpr hzero, Real.sqrt_zero]
    exact isRounded_zero
  · rw [if_neg hzero]
    exact sqrtFinite_isRounded hzero

/-- `sqrt_sf` is correct for all operands, in all rounding modes. -/
theorem sqrtSf_isSquareRoot (a : F.Word) (rm : RoundingMode) (fflags : BitVec 32) :
    IsSquareRoot rm a fflags (sqrtSf a rm fflags) where
  nan := by
    intro h
    unfold sqrtSf
    rw [if_pos h.1, if_pos h.2]
    exact nanResult_eq issignanSf_iff
  invalid := by
    intro hnan hzero hsign
    unfold sqrtSf
    simp only [← isZero_iff]
    by_cases hexp : expOf a = F.expMask
    · have hinf := (infinite_or_nan hexp).resolve_right hnan
      rw [if_pos hexp, if_neg (not_not.mpr hinf.2), if_pos hsign]
      rfl
    · rw [if_neg hexp, if_pos hsign, if_neg hzero]
      rfl
  infinite := by
    intro h hsign
    unfold sqrtSf
    rw [if_pos h.1, if_neg (not_not.mpr h.2), if_neg (by rw [hsign]; decide)]
  zero := sqrtSf_zero
  finite := sqrtSf_finite

end SoftFloat
end Riscbox

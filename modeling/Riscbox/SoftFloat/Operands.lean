import Riscbox.SoftFloat.Arithmetic
import Riscbox.SoftFloat.Normalize

/-!
# Operands

The kinds of numbers that the arithmetic tells apart, and the mantissa that it works with.
-/

namespace Riscbox
namespace SoftFloat

open Rounding Format

variable {F : Format} {a b : F.Word} {fflags : BitVec 32}

/-! ## Kinds -/

/-- A NaN without its quiet bit. -/
def IsSignaling (a : F.Word) : Prop := IsNan a ∧ (mantOf a).toNat < 2 ^ (F.mantSize - 1)

instance : Decidable (IsSignaling a) := inferInstanceAs (Decidable (_ ∧ _))

theorem isnanSf_iff : isnanSf a = true ↔ IsNan a := decide_eq_true_iff

theorem mant_half : 2 ^ F.mantSize = 2 * 2 ^ (F.mantSize - 1) := by
  have hge := F.mantSize_ge
  rw [← pow_succ']
  congr 1
  omega

/-- The exponent with the quiet bit below it. -/
theorem quiet_fields (a : F.Word) :
    (a >>> (F.mantSize - 1) &&& (F.bit (F.expSize + 1) - 1)).toNat =
      2 * expOf a + (mantOf a).toNat / 2 ^ (F.mantSize - 1) := by
  have hsize := F.fSize_eq
  have hge := F.mantSize_ge
  have hpos := Nat.two_pow_pos (F.mantSize - 1)
  have hmant := mant_half (F := F)
  have hdiv : a.toNat / 2 ^ (F.mantSize - 1) = a.toNat / 2 ^ F.mantSize * 2 +
      a.toNat % 2 ^ F.mantSize / 2 ^ (F.mantSize - 1) := by
    have hsplit := Nat.div_add_mod' a.toNat (2 ^ F.mantSize)
    calc a.toNat / 2 ^ (F.mantSize - 1)
        = (a.toNat % 2 ^ F.mantSize +
            a.toNat / 2 ^ F.mantSize * 2 * 2 ^ (F.mantSize - 1)) / 2 ^ (F.mantSize - 1) := by
          congr 1
          rw [hmant, ← Nat.mul_assoc] at hsplit
          rw [hmant]
          omega
      _ = _ := by
          rw [Nat.add_mul_div_right _ _ hpos, Nat.add_comm]
  have hbit : a.toNat % 2 ^ F.mantSize / 2 ^ (F.mantSize - 1) < 2 := by
    rw [Nat.div_lt_iff_lt_mul hpos, ← hmant]
    exact Nat.mod_lt _ (Nat.two_pow_pos _)
  rw [and_mask_toNat _ (by omega), BitVec.toNat_ushiftRight, Nat.shiftRight_eq_div_pow, hdiv,
    expOf_eq, mantOf_toNat, pow_succ', Nat.mod_mul, Nat.mul_comm (_ / _) 2,
    Nat.mul_add_mod_self_left, Nat.mod_eq_of_lt hbit, Nat.mul_add_div (by decide),
    Nat.div_eq_of_lt hbit, Nat.add_zero]
  ring

theorem issignanSf_iff : issignanSf a = true ↔ IsSignaling a := by
  have hsize := F.fSize_eq
  have hmask := F.expMask_lt
  have hge := F.mantSize_ge
  have hsucc := F.expMask_succ
  have hquiet : (mantOf a).toNat / 2 ^ (F.mantSize - 1) < 2 := by
    rw [Nat.div_lt_iff_lt_mul (Nat.two_pow_pos _), ← mant_half]
    exact mantOf_lt a
  have hdouble : 2 * F.expMask < 2 ^ F.fSize := by
    have hpow : 2 ^ (F.expSize + 1) ≤ 2 ^ F.fSize := Nat.pow_le_pow_right (by decide) (by omega)
    rw [pow_succ'] at hpow
    omega
  have hfield : a >>> (F.mantSize - 1) &&& (F.bit (F.expSize + 1) - 1) =
      BitVec.ofNat F.fSize (2 * F.expMask) ↔
        2 * expOf a + (mantOf a).toNat / 2 ^ (F.mantSize - 1) = 2 * F.expMask := by
    rw [← BitVec.toNat_inj, quiet_fields, BitVec.toNat_ofNat, Nat.mod_eq_of_lt hdouble]
  have hlow : (mantOf a).toNat / 2 ^ (F.mantSize - 1) = 0 ↔
      (mantOf a).toNat < 2 ^ (F.mantSize - 1) := by
    rw [Nat.div_eq_zero_iff]
    exact or_iff_right (Nat.two_pow_pos _).ne'
  unfold issignanSf IsSignaling IsNan
  rw [decide_eq_true_iff, hfield, ← hlow]
  generalize (mantOf a).toNat / 2 ^ (F.mantSize - 1) = quiet at hquiet ⊢
  constructor
  · rintro ⟨hsum, hmant⟩
    exact ⟨⟨by omega, hmant⟩, by omega⟩
  · rintro ⟨⟨hexp, hmant⟩, hzero⟩
    exact ⟨by omega, hmant⟩

/-- A quiet NaN, with the invalid flag where it comes from a signaling one. -/
def nanResult (F : Format) (signaling : Bool) (fflags : BitVec 32) : F.Result :=
  (F.qnan, if signaling then fflags ||| fflagInvalidOp else fflags)

/-- A quiet NaN for an operation that has no result. -/
def invalidResult (F : Format) (fflags : BitVec 32) : F.Result :=
  (F.qnan, fflags ||| fflagInvalidOp)

def infinity (F : Format) (s : Bool) : F.Word := packSf F s F.expMask 0

def zero (F : Format) (s : Bool) : F.Word := packSf F s 0 0

theorem not_isFinite : ¬ IsFinite a ↔ expOf a = F.expMask := not_not

theorem finite_zero (h : IsZero a) : IsFinite a := by
  have hmask := F.expMask_ge
  rw [IsFinite, h.1]
  omega

theorem nanResult_eq {p q : Prop} [Decidable p] [Decidable q] (h : p ↔ q) :
    (F.qnan, if p then fflags ||| fflagInvalidOp else fflags) = nanResult F (decide q) fflags := by
  simp only [nanResult, h, decide_eq_true_eq]

theorem IsInfinite.not_zero (h : IsInfinite a) : ¬ IsZero a := by
  have hmask := F.expMask_ge
  intro hzero
  have hexp := h.1.symm.trans hzero.1
  omega

theorem IsInfinite.not_nan (h : IsInfinite a) : ¬ IsNan a := fun hnan => hnan.2 h.2

theorem IsFinite.not_nan (h : IsFinite a) : ¬ IsNan a := fun hnan => h hnan.1

theorem infinite_or_nan (h : expOf a = F.expMask) : IsInfinite a ∨ IsNan a := by
  by_cases hmant : mantOf a = 0
  · exact Or.inl ⟨h, hmant⟩
  · exact Or.inr ⟨h, hmant⟩

/-! ## The mantissa of a finite number -/

/-- An exponent and a mantissa with its leading bit that have the magnitude of `a`. -/
structure Unpacked (a : F.Word) (e : ℤ) (m : F.Word) : Prop where
  low : 2 ^ F.mantSize ≤ m.toNat
  high : m.toNat < 2 ^ (F.mantSize + 1)
  value : magnitude a = m.toNat * 2 ^ (e - F.bias - F.mantSize)

theorem normalizeSubnormalSf_unpacked (hexp : expOf a = 0) (hmant : mantOf a ≠ 0) :
    Unpacked a (normalizeSubnormalSf (mantOf a)).1 (normalizeSubnormalSf (mantOf a)).2 := by
  obtain ⟨hclz, hlow, hhigh⟩ := clz_bounds hmant
  have hsize := F.fSize_eq
  have hlt := mantOf_lt a
  have hlead : F.fSize - 1 - clz (mantOf a) < F.mantSize := by
    by_contra hge
    have hpow : 2 ^ F.mantSize ≤ 2 ^ (F.fSize - 1 - clz (mantOf a)) :=
      Nat.pow_le_pow_right (by decide) (not_lt.mp hge)
    omega
  obtain ⟨shift, hshift⟩ : ∃ shift, F.mantSize - (F.fSize - 1 - clz (mantOf a)) = shift := ⟨_, rfl⟩
  have hproduct : (mantOf a).toNat * 2 ^ shift < 2 ^ (F.mantSize + 1) := by
    calc (mantOf a).toNat * 2 ^ shift < 2 ^ (F.fSize - clz (mantOf a)) * 2 ^ shift :=
          Nat.mul_lt_mul_of_pos_right hhigh (Nat.two_pow_pos _)
      _ = 2 ^ (F.mantSize + 1) := by
          rw [← pow_add]
          congr 1
          omega
  have hword : (mantOf a <<< shift).toNat = (mantOf a).toNat * 2 ^ shift := by
    rw [BitVec.toNat_shiftLeft, Nat.shiftLeft_eq]
    apply Nat.mod_eq_of_lt
    exact hproduct.trans_le (Nat.pow_le_pow_right (by decide) (by omega))
  have hpair : normalizeSubnormalSf (mantOf a) = (1 - (shift : ℤ), mantOf a <<< shift) := by
    rw [normalizeSubnormalSf, hshift]
  rw [hpair]
  refine ⟨?_, by rwa [hword], ?_⟩
  · calc 2 ^ F.mantSize = 2 ^ (F.fSize - 1 - clz (mantOf a)) * 2 ^ shift := by
          rw [← pow_add]
          congr 1
          omega
      _ ≤ (mantOf a).toNat * 2 ^ shift := Nat.mul_le_mul_right _ hlow
      _ = (mantOf a <<< shift).toNat := hword.symm
  · have hscale : scale a = 1 := by
      rw [scale, hexp]
      rfl
    rw [hword, magnitude, significand, hscale, if_pos hexp]
    push_cast
    rw [mul_assoc, ← zpow_natCast, ← two_zpow_add]
    congr 2
    ring

theorem or_leading_toNat {m : F.Word} {n : ℕ} (hm : m.toNat < 2 ^ n) (hn : n < F.fSize) :
    (m ||| F.bit n).toNat = 2 ^ n + m.toNat := by
  have hor := Nat.shiftLeft_add_eq_or_of_lt hm 1
  rw [Nat.one_shiftLeft] at hor
  rw [BitVec.or_comm, BitVec.toNat_or, bit_toNat hn, hor]

theorem unpackNormal_unpacked (hzero : ¬ IsZero a) :
    Unpacked a (unpackNormal a).1 (unpackNormal a).2 := by
  have hsize := F.fSize_eq
  have hmant := mantOf_lt a
  have hpow : 2 ^ (F.mantSize + 1) = 2 * 2 ^ F.mantSize := pow_succ' 2 _
  unfold unpackNormal
  by_cases hexp : expOf a = 0
  · rw [if_pos hexp]
    exact normalizeSubnormalSf_unpacked hexp fun h => hzero ⟨hexp, h⟩
  · have hword := or_leading_toNat hmant (show F.mantSize < F.fSize by omega)
    rw [if_neg hexp]
    dsimp only
    refine ⟨by omega, by omega, ?_⟩
    rw [hword, magnitude, significand, scale, if_neg hexp, max_eq_left (by omega)]

theorem shiftLeft_toNat {m : F.Word} {k : ℕ} (h : m.toNat * 2 ^ k < 2 ^ F.fSize) :
    (m <<< k).toNat = m.toNat * 2 ^ k := by
  rw [BitVec.toNat_shiftLeft, Nat.shiftLeft_eq, Nat.mod_eq_of_lt h]

/-- A mantissa shifted to the left in its word. -/
theorem Unpacked.shift {e : ℤ} {m : F.Word} (h : Unpacked a e m) {k : ℕ}
    (hk : F.mantSize + 1 + k ≤ F.fSize) : (m <<< k).toNat = m.toNat * 2 ^ k := by
  apply shiftLeft_toNat
  calc m.toNat * 2 ^ k < 2 ^ (F.mantSize + 1) * 2 ^ k :=
        Nat.mul_lt_mul_of_pos_right h.high (Nat.two_pow_pos k)
    _ ≤ 2 ^ F.fSize := by
        rw [← pow_add]
        exact Nat.pow_le_pow_right (by decide) hk

end SoftFloat
end Riscbox

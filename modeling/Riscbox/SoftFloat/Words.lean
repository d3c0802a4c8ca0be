import Riscbox.Arithmetic.Rounding
import Riscbox.SoftFloat.Format

/-!
# The words of a format as numbers
-/

namespace Riscbox
namespace SoftFloat

open Rounding

namespace Format

variable (F : Format)

theorem rndSize_eq : F.rndSize = F.expSize - 1 := by
  have hsize := F.fSize_eq
  unfold rndSize imantSize
  omega

theorem rndSize_ge : 4 ≤ F.rndSize := by
  rw [rndSize_eq]
  exact Nat.le_sub_one_of_lt F.expSize_ge

theorem fSize_rnd : F.fSize = F.mantSize + F.rndSize + 2 := by
  have hsize := F.fSize_eq
  have hexp := F.expSize_ge
  rw [rndSize_eq]
  omega

theorem rndSize_lt : F.rndSize < F.mantSize := by
  have hexp := F.expSize_ge
  have hle := F.expSize_le
  rw [rndSize_eq]
  omega

theorem mantSize_ge : 5 ≤ F.mantSize := F.expSize_ge.trans F.expSize_le

@[simp] theorem imantSize_gap : F.fSize - 1 - F.imantSize = 1 := by
  have hsize := F.fSize_eq
  have hexp := F.expSize_ge
  unfold imantSize
  omega

theorem expMask_succ : F.expMask + 1 = 2 ^ F.expSize :=
  Nat.sub_add_cancel (Nat.two_pow_pos F.expSize)

theorem expMask_ge : 31 ≤ F.expMask := by
  have hpow : 2 ^ 5 ≤ 2 ^ F.expSize := Nat.pow_le_pow_right (by decide) F.expSize_ge
  have hsucc := F.expMask_succ
  omega

theorem expMask_lt : F.expMask < 2 ^ F.fSize := by
  have hpow : 2 ^ F.expSize < 2 ^ F.fSize :=
    Nat.pow_lt_pow_right (by decide) (by have := F.fSize_eq; omega)
  have hsucc := F.expMask_succ
  omega

variable {F}

@[simp] theorem bit_toNat {n : Nat} (h : n < F.fSize) : (F.bit n).toNat = 2 ^ n := by
  have hone : (1 : F.Word).toNat = 1 :=
    BitVec.toNat_one (lt_of_le_of_lt (Nat.zero_le n) h)
  rw [bit, BitVec.toNat_shiftLeft, hone, Nat.one_shiftLeft]
  exact Nat.mod_eq_of_lt (Nat.pow_lt_pow_right (by decide) h)

theorem one_toNat : (1 : F.Word).toNat = 1 := by
  have h := bit_toNat (F := F) (n := 0) (by have := F.fSize_eq; omega)
  simpa [bit] using h

theorem zero_toNat : (0 : F.Word).toNat = 0 := rfl

theorem bit_sub_one_toNat {n : Nat} (h : n < F.fSize) : (F.bit n - 1).toNat = 2 ^ n - 1 := by
  have hpos := Nat.two_pow_pos n
  have hlt : 2 ^ n < 2 ^ F.fSize := Nat.pow_lt_pow_right (by decide) h
  rw [BitVec.toNat_sub, bit_toNat h, one_toNat]
  have hsum : 2 ^ F.fSize - 1 + 2 ^ n = 2 ^ n - 1 + 2 ^ F.fSize := by omega
  rw [hsum, Nat.add_mod_right]
  exact Nat.mod_eq_of_lt (by omega)

theorem and_mask_toNat (a : F.Word) {n : Nat} (h : n < F.fSize) :
    (a &&& (F.bit n - 1)).toNat = a.toNat % 2 ^ n := by
  rw [BitVec.toNat_and, bit_sub_one_toNat h, Nat.and_two_pow_sub_one_eq_mod]

theorem toNat_eq_zero_iff {a : F.Word} : a.toNat = 0 ↔ a = 0 :=
  ⟨fun h => BitVec.eq_of_toNat_eq (by rw [h]; rfl), fun h => by rw [h]; rfl⟩

end Format

open Format

variable {F : Format} {a b : F.Word}

/-! ## The fields of a number -/

/-- The fields of a sum whose second one is below the unit of the first. -/
theorem fields_unique {e e' m m' p : Nat} (hm : m < p) (hm' : m' < p)
    (h : e * p + m = e' * p + m') : e = e' ∧ m = m' := by
  have hmod := congrArg (· % p) h
  simp only [Nat.mul_add_mod_self_right, Nat.mod_eq_of_lt hm, Nat.mod_eq_of_lt hm'] at hmod
  refine ⟨?_, hmod⟩
  rw [hmod] at h
  exact Nat.eq_of_mul_eq_mul_right (by omega) (Nat.add_right_cancel h)

theorem mantOf_toNat (a : F.Word) : (mantOf a).toNat = a.toNat % 2 ^ F.mantSize :=
  and_mask_toNat a (by have := F.fSize_eq; omega)

theorem mantOf_lt (a : F.Word) : (mantOf a).toNat < 2 ^ F.mantSize := by
  rw [mantOf_toNat]
  exact Nat.mod_lt _ (Nat.two_pow_pos _)

theorem expOf_eq (a : F.Word) : expOf a = a.toNat / 2 ^ F.mantSize % 2 ^ F.expSize := by
  rw [expOf, BitVec.toNat_and, BitVec.toNat_ushiftRight, BitVec.toNat_ofNat,
    Nat.mod_eq_of_lt F.expMask_lt, expMask, Nat.and_two_pow_sub_one_eq_mod,
    Nat.shiftRight_eq_div_pow]

theorem expOf_le (a : F.Word) : expOf a ≤ F.expMask := by
  have hlt : expOf a < 2 ^ F.expSize := by
    rw [expOf_eq]
    exact Nat.mod_lt _ (Nat.two_pow_pos _)
  have hsucc := F.expMask_succ
  omega

/-- The part below the sign. -/
theorem fields_low (a : F.Word) :
    expOf a * 2 ^ F.mantSize + (mantOf a).toNat = a.toNat % 2 ^ (F.fSize - 1) := by
  have hsize : F.fSize - 1 = F.mantSize + F.expSize := by
    have := F.fSize_eq
    omega
  rw [expOf_eq, mantOf_toNat, hsize, pow_add, Nat.mod_mul]
  ring

theorem word_lt (a : F.Word) : a.toNat < 2 * 2 ^ (F.fSize - 1) := by
  have hsize : F.fSize = F.fSize - 1 + 1 := by
    have := F.fSize_eq
    omega
  have hfull : 2 ^ F.fSize = 2 * 2 ^ (F.fSize - 1) := by
    rw [← pow_succ']
    exact congrArg _ hsize
  exact hfull ▸ a.isLt

theorem signOf_toNat (a : F.Word) : (signOf a).toNat = a.toNat / 2 ^ (F.fSize - 1) := by
  have hlt := word_lt a
  have hpos := Nat.two_pow_pos (F.fSize - 1)
  have hquotient : a.toNat / 2 ^ (F.fSize - 1) < 2 := by
    rw [Nat.div_lt_iff_lt_mul hpos]
    exact hlt
  have hshift : (a >>> (F.fSize - 1)).toNat = a.toNat / 2 ^ (F.fSize - 1) := by
    rw [BitVec.toNat_ushiftRight, Nat.shiftRight_eq_div_pow]
  rw [← hshift] at hquotient ⊢
  unfold signOf
  by_cases hzero : a >>> (F.fSize - 1) = 0
  · rw [hzero]
    rfl
  · have hne : (a >>> (F.fSize - 1)).toNat ≠ 0 := fun h => hzero (toNat_eq_zero_iff.mp h)
    rw [bne_iff_ne.mpr hzero, Bool.toNat_true]
    omega

theorem word_eq (a : F.Word) :
    a.toNat = (signOf a).toNat * 2 ^ (F.fSize - 1) +
      (expOf a * 2 ^ F.mantSize + (mantOf a).toNat) := by
  rw [fields_low, signOf_toNat]
  exact (Nat.div_add_mod' _ _).symm

/-- A number is determined by its fields. -/
theorem word_ext (hsign : signOf a = signOf b) (hexp : expOf a = expOf b)
    (hmant : mantOf a = mantOf b) : a = b := by
  apply BitVec.eq_of_toNat_eq
  rw [word_eq a, word_eq b, hsign, hexp, hmant]

theorem packSf_toNat {s : Bool} {e : Nat} (he : e ≤ F.expMask) (m : F.Word) :
    (packSf F s e m).toNat =
      s.toNat * 2 ^ (F.fSize - 1) + (e * 2 ^ F.mantSize + m.toNat % 2 ^ F.mantSize) := by
  have hsize := F.fSize_eq
  have hsucc := F.expMask_succ
  have hmant : m.toNat % 2 ^ F.mantSize < 2 ^ F.mantSize := Nat.mod_lt _ (Nat.two_pow_pos _)
  have hsplit : 2 ^ (F.fSize - 1) = 2 ^ F.expSize * 2 ^ F.mantSize := by
    rw [← pow_add]
    congr 1
    omega
  have hlow : e * 2 ^ F.mantSize + m.toNat % 2 ^ F.mantSize < 2 ^ (F.fSize - 1) := by
    calc e * 2 ^ F.mantSize + m.toNat % 2 ^ F.mantSize
        < e * 2 ^ F.mantSize + 2 ^ F.mantSize := Nat.add_lt_add_left hmant _
      _ = (e + 1) * 2 ^ F.mantSize := by ring
      _ ≤ 2 ^ F.expSize * 2 ^ F.mantSize := Nat.mul_le_mul_right _ (by omega)
      _ = 2 ^ (F.fSize - 1) := hsplit.symm
  have hfull : 2 ^ F.fSize = 2 * 2 ^ (F.fSize - 1) := by
    rw [← pow_succ']
    congr 1
    omega
  have hs : ((BitVec.ofBool s).setWidth F.fSize <<< (F.fSize - 1)).toNat =
      s.toNat <<< (F.fSize - 1) := by
    have hbool : s.toNat ≤ 1 := Bool.toNat_le s
    rw [BitVec.toNat_shiftLeft, BitVec.toNat_setWidth, BitVec.toNat_ofBool,
      Nat.mod_eq_of_lt (lt_of_le_of_lt hbool (Nat.one_lt_two_pow (by omega))),
      Nat.shiftLeft_eq]
    apply Nat.mod_eq_of_lt
    calc s.toNat * 2 ^ (F.fSize - 1) ≤ 1 * 2 ^ (F.fSize - 1) := Nat.mul_le_mul_right _ hbool
      _ < 2 ^ F.fSize := by
          have := Nat.two_pow_pos (F.fSize - 1)
          omega
  have hx : (BitVec.ofInt F.fSize e <<< F.mantSize).toNat = e <<< F.mantSize := by
    have helt : e < 2 ^ F.fSize := he.trans_lt F.expMask_lt
    rw [BitVec.toNat_shiftLeft, BitVec.ofInt_natCast, BitVec.toNat_ofNat, Nat.mod_eq_of_lt helt,
      Nat.shiftLeft_eq]
    apply Nat.mod_eq_of_lt
    omega
  rw [packSf, BitVec.toNat_or, BitVec.toNat_or, hs, hx, mantMask,
    and_mask_toNat m (by omega), Nat.or_assoc, ← Nat.shiftLeft_add_eq_or_of_lt hmant,
    Nat.shiftLeft_eq e, ← Nat.shiftLeft_add_eq_or_of_lt hlow, Nat.shiftLeft_eq]

section

variable {s : Bool} {e : Nat}

theorem packSf_low (he : e ≤ F.expMask) (m : F.Word) :
    (packSf F s e m).toNat % 2 ^ (F.fSize - 1) =
      e * 2 ^ F.mantSize + m.toNat % 2 ^ F.mantSize := by
  have hsize := F.fSize_eq
  have hsucc := F.expMask_succ
  have hmant : m.toNat % 2 ^ F.mantSize < 2 ^ F.mantSize := Nat.mod_lt _ (Nat.two_pow_pos _)
  have hsplit : 2 ^ (F.fSize - 1) = 2 ^ F.expSize * 2 ^ F.mantSize := by
    rw [← pow_add]
    congr 1
    omega
  rw [packSf_toNat he, Nat.mul_add_mod_self_right]
  apply Nat.mod_eq_of_lt
  calc e * 2 ^ F.mantSize + m.toNat % 2 ^ F.mantSize
      < e * 2 ^ F.mantSize + 2 ^ F.mantSize := Nat.add_lt_add_left hmant _
    _ = (e + 1) * 2 ^ F.mantSize := by ring
    _ ≤ 2 ^ F.expSize * 2 ^ F.mantSize := Nat.mul_le_mul_right _ (by omega)
    _ = 2 ^ (F.fSize - 1) := hsplit.symm

theorem packSf_fields (he : e ≤ F.expMask) (m : F.Word) :
    expOf (packSf F s e m) = e ∧
      (mantOf (packSf F s e m)).toNat = m.toNat % 2 ^ F.mantSize := by
  have hlow := packSf_low (s := s) he m
  rw [← fields_low] at hlow
  exact fields_unique (mantOf_lt _) (Nat.mod_lt _ (Nat.two_pow_pos _)) hlow

theorem expOf_packSf (he : e ≤ F.expMask) (m : F.Word) : expOf (packSf F s e m) = e :=
  (packSf_fields he m).1

theorem mantOf_packSf (he : e ≤ F.expMask) (m : F.Word) :
    (mantOf (packSf F s e m)).toNat = m.toNat % 2 ^ F.mantSize :=
  (packSf_fields he m).2

theorem signOf_packSf (he : e ≤ F.expMask) (m : F.Word) : signOf (packSf F s e m) = s := by
  have hword := word_eq (packSf F s e m)
  rw [fields_low, packSf_low he, packSf_toNat he] at hword
  have hsign := Nat.eq_of_mul_eq_mul_right (Nat.two_pow_pos _) (Nat.add_right_cancel hword)
  revert hsign
  cases s <;> cases signOf (packSf F _ (e : Int) m) <;> simp

end

/-! ## Leading zeros and right shifts -/

theorem clz_bounds (ha : a ≠ 0) :
    clz a < F.fSize ∧ 2 ^ (F.fSize - 1 - clz a) ≤ a.toNat ∧ a.toNat < 2 ^ (F.fSize - clz a) := by
  have hne : a.toNat ≠ 0 := fun h => ha (toNat_eq_zero_iff.mp h)
  have hlog : a.toNat.log2 < F.fSize := (Nat.log2_lt hne).mpr a.isLt
  have hclz : clz a = F.fSize - 1 - a.toNat.log2 := if_neg ha
  have hlow : F.fSize - 1 - clz a = a.toNat.log2 := by omega
  have hhigh : F.fSize - clz a = a.toNat.log2 + 1 := by omega
  rw [hlow, hhigh]
  exact ⟨by omega, Nat.log2_self_le hne, Nat.lt_log2_self⟩

theorem or_flag_toNat (a b : F.Word) :
    (a ||| if b = 0 then (0 : F.Word) else 1).toNat = sticky a.toNat (b.toNat != 0) := by
  by_cases h : b = 0
  · rw [if_pos h, BitVec.toNat_or, h, zero_toNat]
    exact Nat.or_zero _
  · have hne : b.toNat ≠ 0 := fun hzero => h (toNat_eq_zero_iff.mp hzero)
    rw [if_neg h, BitVec.toNat_or, bne_iff_ne.mpr hne, one_toNat]
    rfl

theorem rshiftRnd_toNat (a : F.Word) (d : Nat) :
    (rshiftRnd a d).toNat = sticky (a.toNat / 2 ^ d) (a.toNat % 2 ^ d != 0) := by
  unfold rshiftRnd
  by_cases hzero : d = 0
  · rw [if_pos hzero, hzero, pow_zero, Nat.div_one, Nat.mod_one]
    rfl
  · rw [if_neg hzero]
    by_cases hd : F.fSize ≤ d
    · have hlt : a.toNat < 2 ^ d := a.isLt.trans_le (Nat.pow_le_pow_right (by decide) hd)
      have hflag := or_flag_toNat (0 : F.Word) a
      have hor : ∀ b : F.Word, 0 ||| b = b := fun b => BitVec.zero_or
      rw [hor, zero_toNat] at hflag
      rw [if_pos hd, Nat.div_eq_of_lt hlt, Nat.mod_eq_of_lt hlt, hflag]
    · rw [if_neg hd, or_flag_toNat, BitVec.toNat_ushiftRight, Nat.shiftRight_eq_div_pow,
        and_mask_toNat a (by omega)]

end SoftFloat
end Riscbox

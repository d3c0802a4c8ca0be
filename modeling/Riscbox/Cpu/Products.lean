import Riscbox.Collections.Limbs
import Riscbox.Cpu.Execute

/-!
# The high halves of products

Both builds compute them: from a product of 128 bits natively, from limbs of 32 bits in
the browser.
-/

namespace Riscbox
namespace Cpu

variable (a b : BitVec 64)

/-- The limbs of a register value. -/
def lowLimb : Nat := a.toNat % 2 ^ 32

def highLimb : Nat := a.toNat / 2 ^ 32

theorem limbs_eq : lowLimb a + 2 ^ 32 * highLimb a = a.toNat := Nat.mod_add_div _ _

theorem lowLimb_lt : lowLimb a < 2 ^ 32 := Nat.mod_lt _ (by decide)

theorem highLimb_lt : highLimb a < 2 ^ 32 := by
  have h := a.isLt
  unfold highLimb
  omega

theorem zextWord_toNat : (zextWord a).toNat = lowLimb a := by
  unfold zextWord lowLimb
  rw [BitVec.toNat_setWidth, BitVec.toNat_setWidth]
  omega

theorem shifted_toNat : (a >>> 32).toNat = highLimb a := by
  rw [BitVec.toNat_ushiftRight, Nat.shiftRight_eq_div_pow]
  rfl

theorem limbs_product {x y : Nat} (hx : x < 2 ^ 32) (hy : y < 2 ^ 32) : x * y < 2 ^ 64 := by
  have h := Nat.mul_lt_mul'' hx hy
  omega

/-- No sum of `mulhu64` in limbs leaves 64 bits. -/
structure SumsFit : Prop where
  low : lowLimb a * lowLimb b < 2 ^ 64
  middle : Limbs.middle (2 ^ 32) (lowLimb a) (highLimb a) (lowLimb b) < 2 ^ 64
  middle' : Limbs.middle' (2 ^ 32) (lowLimb a) (highLimb a) (lowLimb b) (highLimb b) < 2 ^ 64
  high : Limbs.high (2 ^ 32) (lowLimb a) (highLimb a) (lowLimb b) (highLimb b) < 2 ^ 64

theorem high_limbs : Limbs.high (2 ^ 32) (lowLimb a) (highLimb a) (lowLimb b) (highLimb b) =
    a.toNat * b.toNat / 2 ^ 64 := by
  rw [Limbs.high_eq (by decide), limbs_eq, limbs_eq]
  norm_num

theorem product_lt : a.toNat * b.toNat < 2 ^ 64 * 2 ^ 64 := Nat.mul_lt_mul'' a.isLt b.isLt

theorem sumsFit : SumsFit a b where
  low := limbs_product (lowLimb_lt a) (lowLimb_lt b)
  middle := Limbs.middle_lt (lowLimb_lt a) (highLimb_lt a) (lowLimb_lt b)
  middle' := Limbs.middle'_lt (lowLimb_lt a) (highLimb_lt b)
  high := by
    rw [high_limbs]
    exact Nat.div_lt_of_lt_mul (product_lt a b)

theorem mulhu64_wasm : (mulhu64 .wasm32 a b).toNat = a.toNat * b.toNat / 2 ^ 64 := by
  have hfit := sumsFit a b
  have hlow : (zextWord a * zextWord b).toNat = lowLimb a * lowLimb b := by
    rw [BitVec.toNat_mul, zextWord_toNat, zextWord_toNat, Nat.mod_eq_of_lt hfit.low]
  have hmiddle : (a >>> 32 * zextWord b + (zextWord a * zextWord b) >>> 32).toNat =
      Limbs.middle (2 ^ 32) (lowLimb a) (highLimb a) (lowLimb b) := by
    have hcross := limbs_product (highLimb_lt a) (lowLimb_lt b)
    have hcarry : highLimb (zextWord a * zextWord b) = lowLimb a * lowLimb b / 2 ^ 32 := by
      rw [highLimb, hlow]
    rw [BitVec.toNat_add, BitVec.toNat_mul, shifted_toNat, shifted_toNat, zextWord_toNat, hcarry,
      Nat.mod_eq_of_lt hcross]
    exact Nat.mod_eq_of_lt hfit.middle
  have hmiddle' : (zextWord a * b >>> 32 +
      zextWord (a >>> 32 * zextWord b + (zextWord a * zextWord b) >>> 32)).toNat =
      Limbs.middle' (2 ^ 32) (lowLimb a) (highLimb a) (lowLimb b) (highLimb b) := by
    have hcross := limbs_product (lowLimb_lt a) (highLimb_lt b)
    rw [BitVec.toNat_add, BitVec.toNat_mul, shifted_toNat, zextWord_toNat, zextWord_toNat,
      Nat.mod_eq_of_lt hcross]
    rw [lowLimb.eq_def (_ + _), hmiddle]
    exact Nat.mod_eq_of_lt hfit.middle'
  have hcross := limbs_product (highLimb_lt a) (highLimb_lt b)
  have hcarry : highLimb (a >>> 32 * zextWord b + (zextWord a * zextWord b) >>> 32) =
      Limbs.middle (2 ^ 32) (lowLimb a) (highLimb a) (lowLimb b) / 2 ^ 32 := by
    rw [highLimb, hmiddle]
  have hcarry' : highLimb (zextWord a * b >>> 32 +
      zextWord (a >>> 32 * zextWord b + (zextWord a * zextWord b) >>> 32)) =
      Limbs.middle' (2 ^ 32) (lowLimb a) (highLimb a) (lowLimb b) (highLimb b) / 2 ^ 32 := by
    rw [highLimb, hmiddle']
  have hhigh : highLimb a * highLimb b +
      Limbs.middle (2 ^ 32) (lowLimb a) (highLimb a) (lowLimb b) / 2 ^ 32 +
      Limbs.middle' (2 ^ 32) (lowLimb a) (highLimb a) (lowLimb b) (highLimb b) / 2 ^ 32 < 2 ^ 64 :=
    hfit.high
  have hmulhu : mulhu64 .wasm32 a b = a >>> 32 * b >>> 32 +
      (a >>> 32 * zextWord b + (zextWord a * zextWord b) >>> 32) >>> 32 +
      (zextWord a * b >>> 32 +
        zextWord (a >>> 32 * zextWord b + (zextWord a * zextWord b) >>> 32)) >>> 32 := rfl
  rw [hmulhu, BitVec.toNat_add, BitVec.toNat_add, BitVec.toNat_mul, shifted_toNat, shifted_toNat,
    shifted_toNat, shifted_toNat, hcarry, hcarry', Nat.mod_eq_of_lt hcross, Nat.mod_add_mod,
    Nat.mod_eq_of_lt hhigh, ← high_limbs]
  rfl

theorem mulhu64_native : (mulhu64 .native64 a b).toNat = a.toNat * b.toNat / 2 ^ 64 := by
  have hproduct := product_lt a b
  have ha := a.isLt
  have hb := b.isLt
  have hmulhu : mulhu64 .native64 a b =
      ((a.setWidth 128 * b.setWidth 128) >>> 64).setWidth 64 := rfl
  rw [hmulhu, BitVec.toNat_setWidth, BitVec.toNat_ushiftRight, BitVec.toNat_mul,
    BitVec.toNat_setWidth, BitVec.toNat_setWidth, Nat.mod_eq_of_lt (by omega : a.toNat < 2 ^ 128),
    Nat.mod_eq_of_lt (by omega : b.toNat < 2 ^ 128), Nat.shiftRight_eq_div_pow,
    Nat.mod_eq_of_lt (by omega : a.toNat * b.toNat < 2 ^ 128)]
  exact Nat.mod_eq_of_lt (Nat.div_lt_of_lt_mul hproduct)

/-! ## Signed products -/

/-- The upper half of a product of 128 bits. -/
def upperHalf (product : Int) : BitVec 64 := BitVec.ofInt 64 (product / 2 ^ 64)

/-- A multiple of 2^64 moves the upper half by its factor. -/
theorem upperHalf_add_mul (product factor : Int) :
    upperHalf (product + 2 ^ 64 * factor) = upperHalf product + BitVec.ofInt 64 factor := by
  unfold upperHalf
  rw [Int.add_mul_ediv_left _ _ (by norm_num), BitVec.ofInt_add]

theorem upperHalf_wide (product : Int) :
    ((BitVec.ofInt 128 product) >>> 64).setWidth 64 = upperHalf product := by
  apply BitVec.eq_of_toNat_eq
  unfold upperHalf
  rw [BitVec.toNat_setWidth, BitVec.toNat_ushiftRight, Nat.shiftRight_eq_div_pow,
    BitVec.toNat_ofInt, BitVec.toNat_ofInt]
  omega

/-- A number and its bits, by its sign. -/
theorem toNat_eq_toInt : (a.toNat : Int) = a.toInt + 2 ^ 64 * (if a.msb then 1 else 0) := by
  rw [BitVec.toInt_eq_msb_cond]
  cases a.msb with
  | false => simp
  | true => simp

theorem mulhu64_eq (t : Target) : mulhu64 t a b = upperHalf (a.toNat * b.toNat) := by
  have htoNat : (mulhu64 t a b).toNat = a.toNat * b.toNat / 2 ^ 64 := by
    cases t with
    | native64 => exact mulhu64_native a b
    | wasm32 => exact mulhu64_wasm a b
  have hcast : (a.toNat : Int) * b.toNat / 2 ^ 64 = ((a.toNat * b.toNat / 2 ^ 64 : Nat) : Int) := by
    push_cast
    rfl
  apply BitVec.eq_of_toNat_eq
  rw [upperHalf, hcast, BitVec.ofInt_natCast, BitVec.toNat_ofNat, htoNat]
  exact (Nat.mod_eq_of_lt (Nat.div_lt_of_lt_mul (product_lt a b))).symm

theorem mulh64_native : mulh64 .native64 a b = upperHalf (a.toInt * b.toInt) := by
  rw [← upperHalf_wide, BitVec.ofInt_mul]
  rfl

theorem mulhsu64_native : mulhsu64 .native64 a b = upperHalf (a.toInt * b.toNat) := by
  have hb : BitVec.ofInt 128 (b.toNat : Int) = b.setWidth 128 := by
    apply BitVec.eq_of_toNat_eq
    rw [BitVec.ofInt_natCast, BitVec.toNat_ofNat, BitVec.toNat_setWidth]
  rw [← upperHalf_wide, BitVec.ofInt_mul, hb]
  rfl

theorem mulhsu64_wasm : mulhsu64 .wasm32 a b = upperHalf (a.toInt * b.toNat) := by
  have hproduct : (a.toNat : Int) * b.toNat =
      a.toInt * b.toNat + 2 ^ 64 * ((if a.msb then 1 else 0) * b.toNat) := by
    rw [toNat_eq_toInt a]
    ring
  have hhigh : mulhu64 .wasm32 a b =
      upperHalf (a.toInt * b.toNat) + BitVec.ofInt 64 ((if a.msb then 1 else 0) * b.toNat) := by
    rw [mulhu64_eq, hproduct, upperHalf_add_mul]
  have hmulhsu : mulhsu64 .wasm32 a b =
      if a.msb then mulhu64 .wasm32 a b - b else mulhu64 .wasm32 a b := rfl
  rw [hmulhsu, hhigh]
  cases a.msb with
  | false => simp
  | true => simp

theorem mulh64_wasm : mulh64 .wasm32 a b = upperHalf (a.toInt * b.toInt) := by
  have hproduct : (a.toNat : Int) * b.toNat =
      a.toInt * b.toInt + 2 ^ 64 * ((if a.msb then 1 else 0) * b.toNat +
        (if b.msb then 1 else 0) * a.toInt) := by
    rw [toNat_eq_toInt a, toNat_eq_toInt b]
    ring
  have hhigh : mulhu64 .wasm32 a b =
      upperHalf (a.toInt * b.toInt) + BitVec.ofInt 64 ((if a.msb then 1 else 0) * b.toNat) +
        BitVec.ofInt 64 ((if b.msb then 1 else 0) * a.toInt) := by
    rw [mulhu64_eq, hproduct, upperHalf_add_mul, BitVec.ofInt_add, BitVec.add_assoc]
  have hmulh : mulh64 .wasm32 a b =
      (if b.msb then (if a.msb then mulhu64 .wasm32 a b - b else mulhu64 .wasm32 a b) - a
        else if a.msb then mulhu64 .wasm32 a b - b else mulhu64 .wasm32 a b) := rfl
  rw [hmulh, hhigh]
  cases a.msb with
  | false =>
    cases b.msb with
    | false => simp
    | true => simp
  | true =>
    cases b.msb with
    | false => simp
    | true =>
      simp only [if_true, Int.one_mul, BitVec.ofInt_natCast, BitVec.ofNat_toNat,
        BitVec.setWidth_eq, BitVec.ofInt_toInt]
      rw [BitVec.add_assoc, BitVec.add_comm b a, ← BitVec.add_assoc, BitVec.add_sub_cancel,
        BitVec.add_sub_cancel]

/-! ## Both builds -/

/-- The limb versions compute the upper halves of the exact products, as the versions of
the native build do, and without a sum that leaves 64 bits. -/
theorem products_exact :
    SumsFit a b ∧
      mulhu64 .wasm32 a b = upperHalf (a.toNat * b.toNat) ∧
      mulh64 .wasm32 a b = upperHalf (a.toInt * b.toInt) ∧
      mulhsu64 .wasm32 a b = upperHalf (a.toInt * b.toNat) ∧
      mulhu64 .wasm32 a b = mulhu64 .native64 a b ∧
      mulh64 .wasm32 a b = mulh64 .native64 a b ∧
      mulhsu64 .wasm32 a b = mulhsu64 .native64 a b := by
  refine ⟨sumsFit a b, mulhu64_eq a b _, mulh64_wasm a b, mulhsu64_wasm a b, ?_, ?_, ?_⟩
  · rw [mulhu64_eq, mulhu64_eq]
  · rw [mulh64_wasm, mulh64_native]
  · rw [mulhsu64_wasm, mulhsu64_native]

end Cpu
end Riscbox

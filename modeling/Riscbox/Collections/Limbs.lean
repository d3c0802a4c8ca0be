import Mathlib.Data.Nat.Basic
import Mathlib.Tactic.Ring
import Mathlib.Tactic.Linarith

/-!
# The high half of a product of two limbs

A number below `B * B` as two limbs below `B`.  The high half of a product needs four
products of limbs and two carries, and no sum on the way reaches `B * B`.
-/

namespace Riscbox.Limbs

variable (B a0 a1 b0 b1 : Nat)

/-- The first middle sum: a crosswise product with the carry of the low one. -/
def middle : Nat := a1 * b0 + a0 * b0 / B

/-- The second middle sum: the other crosswise product with the low limb of the first. -/
def middle' : Nat := a0 * b1 + middle B a0 a1 b0 % B

def high : Nat := a1 * b1 + middle B a0 a1 b0 / B + middle' B a0 a1 b0 b1 / B

variable {B a0 a1 b0 b1}

/-- The product of two limbs leaves room for two more limbs. -/
theorem product_room (ha : a0 < B) (hb : b0 < B) : a0 * b0 + 2 * (B - 1) < B * B := by
  obtain ⟨c, rfl⟩ : ∃ c, B = c + 1 := ⟨B - 1, by omega⟩
  have hproduct : a0 * b0 ≤ c * c := Nat.mul_le_mul (by omega) (by omega)
  have hsquare : (c + 1) * (c + 1) = c * c + 2 * c + 1 := by ring
  have hlimb : c + 1 - 1 = c := rfl
  omega

theorem carry_lt (ha : a0 < B) (hb : b0 < B) : a0 * b0 / B < B :=
  Nat.div_lt_of_lt_mul (Nat.mul_lt_mul'' ha hb)

theorem middle_lt (ha0 : a0 < B) (ha1 : a1 < B) (hb0 : b0 < B) : middle B a0 a1 b0 < B * B := by
  have hroom := product_room ha1 hb0
  have hcarry := carry_lt ha0 hb0
  unfold middle
  omega

theorem middle'_lt (ha0 : a0 < B) (hb1 : b1 < B) : middle' B a0 a1 b0 b1 < B * B := by
  have hroom := product_room ha0 hb1
  have hlow : middle B a0 a1 b0 % B < B := Nat.mod_lt _ (by omega)
  unfold middle'
  omega

/-- The high half with its carries. -/
theorem high_eq (hB : 0 < B) :
    high B a0 a1 b0 b1 = (a0 + B * a1) * (b0 + B * b1) / (B * B) := by
  have hlow := Nat.mod_add_div (a0 * b0) B
  have hmiddle := Nat.mod_add_div (middle B a0 a1 b0) B
  have hmiddle' := Nat.mod_add_div (middle' B a0 a1 b0 b1) B
  have hlowLt : a0 * b0 % B < B := Nat.mod_lt _ hB
  have hmiddleLt : middle' B a0 a1 b0 b1 % B < B := Nat.mod_lt _ hB
  -- What is left of the product below the high half.
  have hproduct : (a0 + B * a1) * (b0 + B * b1) =
      a0 * b0 % B + B * (middle' B a0 a1 b0 b1 % B) + B * B * high B a0 a1 b0 b1 := by
    calc (a0 + B * a1) * (b0 + B * b1)
        = a0 * b0 + B * (a1 * b0) + B * (a0 * b1) + B * B * (a1 * b1) := by ring
      _ = a0 * b0 % B + B * (a0 * b0 / B) + B * (a1 * b0) + B * (a0 * b1) +
            B * B * (a1 * b1) := by rw [hlow]
      _ = a0 * b0 % B + B * middle B a0 a1 b0 + B * (a0 * b1) + B * B * (a1 * b1) := by
          rw [middle]
          ring
      _ = a0 * b0 % B + B * (middle B a0 a1 b0 % B + B * (middle B a0 a1 b0 / B)) +
            B * (a0 * b1) + B * B * (a1 * b1) := by rw [hmiddle]
      _ = a0 * b0 % B + B * middle' B a0 a1 b0 b1 + B * B * (middle B a0 a1 b0 / B) +
            B * B * (a1 * b1) := by
          rw [middle']
          ring
      _ = a0 * b0 % B + B * (middle' B a0 a1 b0 b1 % B + B * (middle' B a0 a1 b0 b1 / B)) +
            B * B * (middle B a0 a1 b0 / B) + B * B * (a1 * b1) := by rw [hmiddle']
      _ = a0 * b0 % B + B * (middle' B a0 a1 b0 b1 % B) + B * B * high B a0 a1 b0 b1 := by
          rw [high]
          ring
  have hsmall : a0 * b0 % B + B * (middle' B a0 a1 b0 b1 % B) < B * B := by
    calc a0 * b0 % B + B * (middle' B a0 a1 b0 b1 % B)
        < B + B * (middle' B a0 a1 b0 b1 % B) := Nat.add_lt_add_right hlowLt _
      _ = B * (middle' B a0 a1 b0 b1 % B + 1) := by ring
      _ ≤ B * B := Nat.mul_le_mul_left B hmiddleLt
  rw [hproduct, Nat.add_mul_div_left _ _ (Nat.mul_pos hB hB), Nat.div_eq_of_lt hsmall, Nat.zero_add]

/-! ## A product column by column -/

section

variable (B a0 a1 b0 b1)

/-- The sum of the second column, with the carry of the first. -/
def column1 : Nat := a0 * b0 / B + a0 * b1 % B + a1 * b0 % B

/-- The sum of the third column. -/
def column2 : Nat := column1 B a0 a1 b0 b1 / B + a0 * b1 / B + a1 * b0 / B + a1 * b1 % B

/-- The sum of the last column. -/
def column3 : Nat := column2 B a0 a1 b0 b1 / B + a1 * b1 / B

end

theorem limbs_lt (ha0 : a0 < B) (ha1 : a1 < B) : a0 + B * a1 < B * B := by
  calc a0 + B * a1 < B + B * a1 := Nat.add_lt_add_right ha0 _
    _ = B * (a1 + 1) := by ring
    _ ≤ B * B := Nat.mul_le_mul_left B ha1

variable (a1 b1) in
theorem column1_lt (ha0 : a0 < B) (hb0 : b0 < B) : column1 B a0 a1 b0 b1 < 3 * B := by
  have hcarry := carry_lt ha0 hb0
  have hleft : a0 * b1 % B < B := Nat.mod_lt _ (by omega)
  have hright : a1 * b0 % B < B := Nat.mod_lt _ (by omega)
  unfold column1
  omega

theorem column2_lt (ha0 : a0 < B) (ha1 : a1 < B) (hb0 : b0 < B) (hb1 : b1 < B) :
    column2 B a0 a1 b0 b1 < 3 * B + 1 := by
  have hcolumn := column1_lt a1 b1 ha0 hb0
  have hcarry : column1 B a0 a1 b0 b1 / B < 3 := (Nat.div_lt_iff_lt_mul (by omega)).mpr hcolumn
  have hleft := carry_lt ha0 hb1
  have hright := carry_lt ha1 hb0
  have hlow : a1 * b1 % B < B := Nat.mod_lt _ (by omega)
  unfold column2
  omega

variable (B a0 a1 b0 b1) in
/-- The columns make up the product. -/
theorem columns_eq : (a0 + B * a1) * (b0 + B * b1) =
    a0 * b0 % B + B * (column1 B a0 a1 b0 b1 % B) +
      B * B * (column2 B a0 a1 b0 b1 % B + B * column3 B a0 a1 b0 b1) := by
  have hlow := Nat.mod_add_div (a0 * b0) B
  have hleft := Nat.mod_add_div (a0 * b1) B
  have hright := Nat.mod_add_div (a1 * b0) B
  have hhigh := Nat.mod_add_div (a1 * b1) B
  have hcolumn1 := Nat.mod_add_div (column1 B a0 a1 b0 b1) B
  have hcolumn2 := Nat.mod_add_div (column2 B a0 a1 b0 b1) B
  symm
  calc a0 * b0 % B + B * (column1 B a0 a1 b0 b1 % B) +
        B * B * (column2 B a0 a1 b0 b1 % B + B * column3 B a0 a1 b0 b1)
      = a0 * b0 % B + B * (column1 B a0 a1 b0 b1 % B) +
          B * B * (column2 B a0 a1 b0 b1 % B + B * (column2 B a0 a1 b0 b1 / B) +
            B * (a1 * b1 / B)) := by
        rw [column3]
        ring
    _ = a0 * b0 % B + B * (column1 B a0 a1 b0 b1 % B) +
          B * B * (column2 B a0 a1 b0 b1 + B * (a1 * b1 / B)) := by rw [hcolumn2]
    _ = a0 * b0 % B + B * (column1 B a0 a1 b0 b1 % B + B * (column1 B a0 a1 b0 b1 / B)) +
          B * B * (a0 * b1 / B + a1 * b0 / B + (a1 * b1 % B + B * (a1 * b1 / B))) := by
        rw [column2]
        ring
    _ = a0 * b0 % B + B * column1 B a0 a1 b0 b1 +
          B * B * (a0 * b1 / B + a1 * b0 / B + a1 * b1) := by rw [hcolumn1, hhigh]
    _ = a0 * b0 % B + B * (a0 * b0 / B) + B * (a0 * b1 % B + B * (a0 * b1 / B)) +
          B * (a1 * b0 % B + B * (a1 * b0 / B)) + B * B * (a1 * b1) := by
        rw [column1]
        ring
    _ = a0 * b0 + B * (a0 * b1) + B * (a1 * b0) + B * B * (a1 * b1) := by
        rw [hlow, hleft, hright]
    _ = (a0 + B * a1) * (b0 + B * b1) := by ring

/-- The last column does not overflow. -/
theorem column3_lt (ha0 : a0 < B) (ha1 : a1 < B) (hb0 : b0 < B) (hb1 : b1 < B) :
    column3 B a0 a1 b0 b1 < B := by
  have hB : 0 < B * B := Nat.mul_pos (by omega) (by omega)
  have hproduct : (a0 + B * a1) * (b0 + B * b1) < B * B * (B * B) :=
    Nat.mul_lt_mul'' (limbs_lt ha0 ha1) (limbs_lt hb0 hb1)
  rw [columns_eq] at hproduct
  by_contra hge
  have hmul : B * B * (B * B) ≤ B * B * (B * column3 B a0 a1 b0 b1) :=
    Nat.mul_le_mul_left _ (Nat.mul_le_mul_left _ (not_lt.mp hge))
  have hadd : B * B * (B * column3 B a0 a1 b0 b1) ≤
      B * B * (column2 B a0 a1 b0 b1 % B + B * column3 B a0 a1 b0 b1) :=
    Nat.mul_le_mul_left _ (Nat.le_add_left _ _)
  omega

end Riscbox.Limbs

import Mathlib

/-!
# Division bit by bit and Newton's square root

What one step of each iteration does, in natural numbers.
-/

namespace Riscbox
namespace Iterations

variable {b d n s x : ℕ}

/-! ## Long division -/

/-- A quotient whose divisor does not go twice into the dividend. -/
theorem quotient_bit (hx : x < 2 * b) : x / b = if b ≤ x then 1 else 0 := by
  have hb : 0 < b := by omega
  by_cases h : b ≤ x
  · rw [if_pos h]
    exact Nat.div_eq_of_lt_le (by omega) (by omega)
  · rw [if_neg h]
    exact Nat.div_eq_of_lt (not_le.mp h)

theorem remainder_bit (hx : x < 2 * b) : x % b = if b ≤ x then x - b else x := by
  have hdiv := Nat.div_add_mod x b
  have hbit := quotient_bit hx
  by_cases h : b ≤ x
  · rw [if_pos h] at hbit ⊢
    rw [hbit, Nat.mul_one] at hdiv
    omega
  · rw [if_neg h]
    exact Nat.mod_eq_of_lt (not_le.mp h)

/-- The leading digits are divided first, and their remainder goes on with the rest. -/
theorem divide_leading (hb : 0 < b) (n : ℕ) :
    (x * 2 ^ n + d) / b = x / b * 2 ^ n + (x % b * 2 ^ n + d) / b ∧
      (x * 2 ^ n + d) % b = (x % b * 2 ^ n + d) % b := by
  have hsplit : x * 2 ^ n + d = x % b * 2 ^ n + d + b * (x / b * 2 ^ n) := by
    calc x * 2 ^ n + d = (x % b + b * (x / b)) * 2 ^ n + d := by rw [Nat.mod_add_div]
      _ = x % b * 2 ^ n + d + b * (x / b * 2 ^ n) := by ring
  constructor
  · rw [hsplit, Nat.add_mul_div_left _ _ hb, Nat.add_comm]
  · rw [hsplit, Nat.add_mul_mod_self_left]

/-! ## Square roots -/

/-- Newton's next value is not below the root. -/
theorem sqrt_le_newton (hs : 0 < s) : Nat.sqrt n ≤ (n / s + s) / 2 := by
  have hroot := Nat.sqrt_le n
  have hquotient : 2 * Nat.sqrt n ≤ n / s + s := by
    by_cases hlarge : 2 * Nat.sqrt n ≤ s
    · exact hlarge.trans (Nat.le_add_left _ _)
    · obtain ⟨k, hk⟩ : ∃ k, 2 * Nat.sqrt n = s + k := ⟨2 * Nat.sqrt n - s, by omega⟩
      have hle : k * s ≤ n := by nlinarith [Nat.sqrt_le n, sq_nonneg ((s : ℤ) - k)]
      have hdiv : k ≤ n / s := (Nat.le_div_iff_mul_le hs).mpr hle
      omega
  omega

/-- A value that the iteration does not lower is the root, unless it is below it. -/
theorem eq_sqrt_of_newton (hs : 0 < s) (hroot : Nat.sqrt n ≤ s) (hstop : s ≤ (n / s + s) / 2) :
    s = Nat.sqrt n := by
  have hquotient : s ≤ n / s := by omega
  have hsquare : s * s ≤ n := (Nat.le_div_iff_mul_le hs).mp hquotient
  exact le_antisymm (Nat.le_sqrt.mpr hsquare) hroot

/-- The quotient by a value from the root on is hardly above the root. -/
theorem div_le_sqrt (hn : 0 < n) (hroot : Nat.sqrt n ≤ s) : n / s ≤ Nat.sqrt n + 2 := by
  have hpos : 0 < Nat.sqrt n := Nat.sqrt_pos.mpr hn
  have hlt := Nat.lt_succ_sqrt n
  rw [← Nat.lt_succ_iff, Nat.div_lt_iff_lt_mul (by omega)]
  calc n < (Nat.sqrt n).succ * (Nat.sqrt n).succ := hlt
    _ ≤ (Nat.sqrt n + 2).succ * Nat.sqrt n := by
        have hsplit : (Nat.sqrt n + 2).succ * Nat.sqrt n =
            Nat.sqrt n * Nat.sqrt n + 3 * Nat.sqrt n := by
          rw [Nat.succ_mul]
          ring
        have hsquare : (Nat.sqrt n).succ * (Nat.sqrt n).succ =
            Nat.sqrt n * Nat.sqrt n + 2 * Nat.sqrt n + 1 := by
          rw [Nat.succ_mul, Nat.mul_succ, Nat.succ_eq_add_one]
          ring
        omega
    _ ≤ (Nat.sqrt n + 2).succ * s := Nat.mul_le_mul_left _ hroot

end Iterations
end Riscbox

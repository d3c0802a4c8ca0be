import Mathlib.Data.BitVec

/-!
# Bits and masks of machine words
-/

namespace Riscbox

/-! ## Single bits -/

theorem getLsbD_bit {w n : Nat} (hn : n < w) (i : Nat) :
    ((1 : BitVec w) <<< n).getLsbD i = decide (i = n) := by
  show (1#w <<< n).getLsbD i = _
  rw [← BitVec.twoPow_eq, BitVec.getLsbD_twoPow, decide_eq_true hn, Bool.true_and]
  exact decide_eq_decide.mpr eq_comm

/-- A test of one bit. -/
theorem and_twoPow_ne_zero {w n : Nat} (hn : n < w) (v : BitVec w) :
    v &&& BitVec.twoPow w n ≠ 0#w ↔ v.getLsbD n = true := by
  rw [BitVec.and_twoPow]
  by_cases h : v.getLsbD n = true
  · rw [if_pos h]
    refine ⟨fun _ => h, fun _ hzero => ?_⟩
    have hbit := congrArg (fun u : BitVec w => u.getLsbD n) hzero
    simp [hn] at hbit
  · rw [if_neg h]
    exact ⟨fun hne => absurd rfl hne, fun hbit => absurd hbit h⟩

theorem and_bit_ne_zero {w n : Nat} {m : BitVec w} (hn : n < w) :
    m &&& (1 : BitVec w) <<< n ≠ 0 ↔ m.getLsbD n = true := by
  show m &&& 1#w <<< n ≠ 0#w ↔ _
  rw [← BitVec.twoPow_eq]
  exact and_twoPow_ne_zero hn m

theorem eq_zero_of_getLsbD {w : Nat} {v : BitVec w} (h : ∀ i < w, v.getLsbD i = false) :
    v = 0 := by
  apply BitVec.eq_of_getLsbD_eq
  intro i hi
  rw [h i hi]
  exact BitVec.getLsbD_zero.symm

/-- A bit of a word merged under a mask. -/
theorem getLsbD_merge {w : Nat} (old val mask : BitVec w) {i : Nat} (hi : i < w) :
    ((old &&& ~~~mask) ||| (val &&& mask)).getLsbD i =
      if mask.getLsbD i then val.getLsbD i else old.getLsbD i := by
  rw [BitVec.getLsbD_or, BitVec.getLsbD_and, BitVec.getLsbD_and, BitVec.getLsbD_not]
  cases mask.getLsbD i <;> simp [hi]

/-! ## Fields -/

theorem shiftLeft_bit (a : BitVec 64) {i n : Nat} (h : i < n) :
    (a <<< n).getLsbD i = false := by
  simp [h]

theorem small_bit {a : BitVec 64} (h : a.toNat < 4) (i : Nat) :
    a.getLsbD (i + 2) = false := by
  rw [BitVec.getLsbD]
  apply Nat.testBit_lt_two_pow
  have hpow : 2 ^ 2 ≤ 2 ^ (i + 2) := Nat.pow_le_pow_right (by omega) (by omega)
  omega

theorem field_one (m : BitVec 64) (n : Nat) :
    (m >>> n) &&& 1 = if m.getLsbD n then 1 else 0 := by
  apply BitVec.eq_of_getLsbD_eq
  intro i hi
  rcases i with _ | i
  · cases h : m.getLsbD n <;> simp [h]
  · cases h : m.getLsbD n <;> simp

theorem field_two (m : BitVec 64) (n : Nat) :
    (m >>> n) &&& 3 = BitVec.ofNat 64
      ((m.getLsbD n).toNat + 2 * (m.getLsbD (n + 1)).toNat) := by
  apply BitVec.eq_of_getLsbD_eq
  intro i hi
  rcases i with _ | _ | i
  · cases h : m.getLsbD n <;> cases h' : m.getLsbD (n + 1) <;> simp [h]
  · cases h : m.getLsbD n <;> cases h' : m.getLsbD (n + 1) <;> simp [h']
  · have hthree : (3 : BitVec 64).getLsbD (i + 2) = false := small_bit (by decide) i
    have hleft : ((m >>> n) &&& 3).getLsbD (i + 2) = false := by
      rw [BitVec.getLsbD_and, hthree, Bool.and_false]
    rw [hleft]
    symm
    apply small_bit
    cases m.getLsbD n <;> cases m.getLsbD (n + 1) <;> decide

end Riscbox

import Mathlib

/-!
# Numerals

The value of the digits of a text, and the parsing of whole texts as the standard library
of Rust has it.
-/

namespace Riscbox
namespace Numerals

/-- The value of a digit of a radix of at most 16. -/
def digit (radix : Nat) (byte : UInt8) : Option Nat :=
  let value :=
    if '0'.toUInt8 ≤ byte ∧ byte ≤ '9'.toUInt8 then some (byte - '0'.toUInt8).toNat
    else if 'a'.toUInt8 ≤ byte ∧ byte ≤ 'f'.toUInt8 then some ((byte - 'a'.toUInt8).toNat + 10)
    else if 'A'.toUInt8 ≤ byte ∧ byte ≤ 'F'.toUInt8 then some ((byte - 'A'.toUInt8).toNat + 10)
    else none
  value.filter (· < radix)

/-- The value of a text of digits, the greatest digit first, that follows a value. -/
def digits (radix : Nat) : Nat → List UInt8 → Option Nat
  | value, [] => some value
  | value, byte :: rest => (digit radix byte).bind fun d => digits radix (value * radix + d) rest

/-- The value of a text of at least one digit. -/
def numeral (radix : Nat) (text : List UInt8) : Option Nat :=
  if text = [] then none else digits radix 0 text

/-- The text without a plus sign. -/
def unsigned (text : List UInt8) : List UInt8 :=
  if text.head? = some '+'.toUInt8 then text.tail else text

/-- `u64::from_str_radix`. -/
def u64FromStrRadix (text : List UInt8) (radix : Nat) : Option Nat :=
  (numeral radix (unsigned text)).filter (· < 2 ^ 64)

/-- `i32::from_str_radix`. -/
def i32FromStrRadix (text : List UInt8) (radix : Nat) : Option Int :=
  if text.head? = some '-'.toUInt8 then
    ((numeral radix text.tail).filter (· ≤ 2 ^ 31)).map fun value => -value
  else ((numeral radix (unsigned text)).filter (· < 2 ^ 31)).map Int.ofNat

variable {radix value d n : Nat} {byte : UInt8} {text before after : List UInt8}

theorem digits_append :
    digits radix value (before ++ after) =
      (digits radix value before).bind fun value => digits radix value after := by
  induction before generalizing value with
  | nil => rfl
  | cons byte before ih =>
    simp only [List.cons_append, digits, ih, Option.bind_assoc]

/-- Every byte of a text of digits is one. -/
theorem digit_of_digits {result : Nat} (h : digits radix value text = some result)
    (hbyte : byte ∈ text) : ∃ d, digit radix byte = some d := by
  induction text generalizing value with
  | nil => cases hbyte
  | cons first rest ih =>
    obtain ⟨d, hd, hrest⟩ := Option.bind_eq_some_iff.mp h
    rcases List.mem_cons.mp hbyte with rfl | hbyte
    · exact ⟨d, hd⟩
    · exact ih hrest hbyte

theorem digits_some (h : ∀ byte ∈ text, ∃ d, digit radix byte = some d) :
    ∃ result, digits radix value text = some result := by
  induction text generalizing value with
  | nil => exact ⟨value, rfl⟩
  | cons first rest ih =>
    obtain ⟨d, hd⟩ := h first List.mem_cons_self
    have hrest : ∃ result, digits radix (value * radix + d) rest = some result :=
      ih fun byte hbyte => h byte (List.mem_cons_of_mem _ hbyte)
    obtain ⟨result, hresult⟩ := hrest
    refine ⟨result, ?_⟩
    rw [digits, hd]
    exact hresult

theorem digit_lt (h : digit radix byte = some d) : d < radix := by
  obtain ⟨-, hlt⟩ := Option.filter_eq_some_iff.mp h
  exact of_decide_eq_true hlt

/-- A digit is no sign. -/
theorem digit_sign (h : digit radix byte = some d) :
    byte ≠ '+'.toUInt8 ∧ byte ≠ '-'.toUInt8 := by
  constructor
  · rintro rfl
    cases h
  · rintro rfl
    cases h

/-- A text of digits has no sign. -/
theorem head_of_numeral (h : numeral radix text = some value) :
    text.head? ≠ some '+'.toUInt8 ∧ text.head? ≠ some '-'.toUInt8 := by
  cases text with
  | nil => exact ⟨by simp, by simp⟩
  | cons byte rest =>
    unfold numeral at h
    rw [if_neg (List.cons_ne_nil _ _)] at h
    obtain ⟨d, hd⟩ := digit_of_digits h List.mem_cons_self
    obtain ⟨hplus, hminus⟩ := digit_sign hd
    exact ⟨fun he => hplus (Option.some.inj he), fun he => hminus (Option.some.inj he)⟩

theorem i32FromStrRadix_numeral (h : numeral radix text = some value) :
    i32FromStrRadix text radix = if value < 2 ^ 31 then some (value : Int) else none := by
  obtain ⟨hplus, hminus⟩ := head_of_numeral h
  unfold i32FromStrRadix
  rw [if_neg hminus, unsigned, if_neg hplus, h]
  by_cases hlt : value < 2 ^ 31
  · rw [if_pos hlt, Option.filter_some, if_pos (decide_eq_true hlt)]
    rfl
  · rw [if_neg hlt, Option.filter_some, if_neg (by simpa using hlt)]
    rfl

theorem u64FromStrRadix_numeral (h : numeral radix text = some value) :
    u64FromStrRadix text radix = if value < 2 ^ 64 then some value else none := by
  obtain ⟨hplus, -⟩ := head_of_numeral h
  unfold u64FromStrRadix
  rw [unsigned, if_neg hplus, h]
  by_cases hlt : value < 2 ^ 64
  · rw [if_pos hlt, Option.filter_some, if_pos (decide_eq_true hlt)]
  · rw [if_neg hlt, Option.filter_some, if_neg (by simpa using hlt)]

/-! ## Writing a number -/

/-- The digit of a number below ten. -/
def decimalDigit (d : Nat) : UInt8 := UInt8.ofNat (48 + d)

/-- The decimal digits of a number, without leading zeros. -/
def decimal (n : Nat) : List UInt8 :=
  if n < 10 then [decimalDigit n] else decimal (n / 10) ++ [decimalDigit (n % 10)]
termination_by n
decreasing_by omega

theorem digit_decimalDigit : ∀ d < 10, digit 10 (decimalDigit d) = some d := by decide

theorem digits_decimal (n : Nat) : digits 10 0 (decimal n) = some n := by
  induction n using Nat.strong_induction_on with
  | _ n ih =>
    unfold decimal
    by_cases hsmall : n < 10
    · rw [if_pos hsmall, digits, digit_decimalDigit n hsmall, Option.bind_some]
      simp [digits]
    · rw [if_neg hsmall, digits_append, ih (n / 10) (by omega), Option.bind_some, digits,
        digit_decimalDigit _ (Nat.mod_lt n (by decide)), Option.bind_some, digits,
        Nat.div_add_mod']

theorem decimal_ne_nil (n : Nat) : decimal n ≠ [] := by
  unfold decimal
  by_cases hsmall : n < 10
  · rw [if_pos hsmall]
    exact List.cons_ne_nil _ _
  · rw [if_neg hsmall]
    exact List.append_ne_nil_of_right_ne_nil _ (List.cons_ne_nil _ _)

theorem numeral_decimal (n : Nat) : numeral 10 (decimal n) = some n :=
  (if_neg (decimal_ne_nil n)).trans (digits_decimal n)

theorem decimal_head (hn : 0 < n) : (decimal n).head? ≠ some '0'.toUInt8 := by
  induction n using Nat.strong_induction_on with
  | _ n ih =>
    unfold decimal
    by_cases hsmall : n < 10
    · rw [if_pos hsmall]
      have hdigits : ∀ d < 10, 0 < d → [decimalDigit d].head? ≠ some '0'.toUInt8 := by decide
      exact hdigits n hsmall hn
    · rw [if_neg hsmall, List.head?_append_of_ne_nil _ (decimal_ne_nil _)]
      exact ih (n / 10) (by omega) (by omega)

end Numerals
end Riscbox

import Mathlib

/-!
# Little-endian words

A word of a fixed number of bytes, least significant byte first.
-/

namespace Riscbox.LittleEndian

/-- The lowest `width` bytes of a number. -/
def encode : Nat → Nat → List UInt8
  | 0, _ => []
  | width + 1, n => UInt8.ofNat n :: encode width (n / 256)

def decode : List UInt8 → Nat
  | [] => 0
  | byte :: rest => byte.toNat + 256 * decode rest

@[simp] theorem length_encode (width n : Nat) : (encode width n).length = width := by
  induction width generalizing n with
  | zero => rfl
  | succ width ih => rw [encode, List.length_cons, ih]

theorem decode_encode {width n : Nat} (h : n < 256 ^ width) : decode (encode width n) = n := by
  induction width generalizing n with
  | zero =>
    rw [pow_zero] at h
    rw [encode, decode]
    omega
  | succ width ih =>
    rw [pow_succ] at h
    rw [encode, decode, ih (by omega), UInt8.toNat_ofNat']
    omega

theorem decode_lt (bytes : List UInt8) : decode bytes < 256 ^ bytes.length := by
  induction bytes with
  | nil => exact Nat.one_pos
  | cons byte rest ih =>
    have hbyte := byte.toNat_lt
    rw [decode, List.length_cons, pow_succ]
    omega

theorem encode_decode (bytes : List UInt8) : encode bytes.length (decode bytes) = bytes := by
  induction bytes with
  | nil => rfl
  | cons byte rest ih =>
    have hbyte := byte.toNat_lt
    have hdiv : (byte.toNat + 256 * decode rest) / 256 = decode rest := by omega
    have hlow : UInt8.ofNat (byte.toNat + 256 * decode rest) = byte := by
      apply UInt8.toNat_inj.mp
      rw [UInt8.toNat_ofNat']
      omega
    rw [List.length_cons, encode, decode, hdiv, ih, hlow]

end Riscbox.LittleEndian

import Mathlib

/-!
# The formats of the soft floating point

One template is compiled for each size.  A `Format` is what a compilation fixes, with the
relations between the sizes that the template needs.
-/

namespace Riscbox
namespace SoftFloat

/-- `hasUlong` tells whether `F_ULONG` is defined, an integer of two words. -/
structure Format where
  fSize : Nat
  mantSize : Nat
  expSize : Nat
  hasUlong : Bool
  fSize_eq : fSize = mantSize + expSize + 1
  expSize_ge : 5 ≤ expSize
  expSize_le : expSize ≤ mantSize
  fSize_even : 2 ∣ fSize

def sf32 : Format := ⟨32, 23, 8, true, rfl, by decide, by decide, by decide⟩

def sf64 : Format := ⟨64, 52, 11, true, rfl, by decide, by decide, by decide⟩

def sf128 : Format := ⟨128, 112, 15, false, rfl, by decide, by decide, by decide⟩

/-- `RoundingModeEnum`. -/
inductive RoundingMode
  | rne
  | rtz
  | rdn
  | rup
  | rmm
  deriving DecidableEq, Repr

def fflagInvalidOp : BitVec 32 := 1 <<< 4
def fflagDivideZero : BitVec 32 := 1 <<< 3
def fflagOverflow : BitVec 32 := 1 <<< 2
def fflagUnderflow : BitVec 32 := 1 <<< 1
def fflagInexact : BitVec 32 := 1 <<< 0

namespace Format

variable (F : Format)

/-- `F_UINT`. -/
abbrev Word := BitVec F.fSize

/-- What the arithmetic returns: the number, and the flags with those it has raised. -/
abbrev Result := F.Word × BitVec 32

/-- `(F_UINT)1 << n`. -/
def bit (n : Nat) : F.Word := (1 : F.Word) <<< n

/-- `EXP_MASK`. -/
def expMask : Nat := 2 ^ F.expSize - 1

/-- `MANT_MASK`. -/
def mantMask : F.Word := F.bit F.mantSize - 1

/-- `SIGN_MASK`. -/
def signMask : F.Word := F.bit (F.fSize - 1)

/-- `IMANT_SIZE`. -/
def imantSize : Nat := F.fSize - 2

/-- `RND_SIZE`. -/
def rndSize : Nat := F.imantSize - F.mantSize

/-- `QNAN_MASK`. -/
def qnanMask : F.Word := F.bit (F.mantSize - 1)

/-- `F_QNAN`. -/
def qnan : F.Word := BitVec.ofNat _ F.expMask <<< F.mantSize ||| F.bit (F.mantSize - 1)

end Format

variable {F : Format}

/-- `clz32`, `clz64` and `clz128`. -/
def clz (a : F.Word) : Nat := if a = 0 then F.fSize else F.fSize - 1 - a.toNat.log2

/-- `a >> (F_SIZE - 1)`. -/
def signOf (a : F.Word) : Bool := (a >>> (F.fSize - 1)) != 0

/-- `(a >> MANT_SIZE) & EXP_MASK`. -/
def expOf (a : F.Word) : Nat := (a >>> F.mantSize &&& BitVec.ofNat _ F.expMask).toNat

/-- `a & MANT_MASK`. -/
def mantOf (a : F.Word) : F.Word := a &&& F.mantMask

/-- `pack_sf`. -/
def packSf (F : Format) (aSign : Bool) (aExp : Int) (aMant : F.Word) : F.Word :=
  (BitVec.ofBool aSign).setWidth _ <<< (F.fSize - 1) ||| BitVec.ofInt _ aExp <<< F.mantSize |||
    (aMant &&& F.mantMask)

/-- `rshift_rnd`. -/
def rshiftRnd (a : F.Word) (d : Nat) : F.Word :=
  if d = 0 then a
  else if F.fSize ≤ d then if a = 0 then 0 else 1
  else a >>> d ||| if a &&& (F.bit d - 1) = 0 then 0 else 1

/-- `addend`, which rounding adds below the last bit that it keeps. -/
def addend (F : Format) (aSign : Bool) (rm : RoundingMode) : F.Word :=
  match rm with
  | .rne | .rmm => F.bit (F.rndSize - 1)
  | .rtz => 0
  | .rdn => if aSign then F.bit F.rndSize - 1 else 0
  | .rup => if aSign then 0 else F.bit F.rndSize - 1

/-- `a_mant & ((1 << RND_SIZE) - 1)`. -/
def rndBits (aMant : F.Word) : F.Word := aMant &&& (F.bit F.rndSize - 1)

/-- `(a_mant + addend) >> RND_SIZE`, to even from half way. -/
def roundMant (aSign : Bool) (aMant : F.Word) (rm : RoundingMode) : F.Word :=
  let rounded := (aMant + addend F aSign rm) >>> F.rndSize
  if rm = .rne ∧ rndBits aMant = F.bit (F.rndSize - 1) then rounded &&& ~~~(1 : F.Word) else rounded

/-- `round_pack_sf`. -/
def roundPackSf (F : Format) (aSign : Bool) (aExp : Int) (aMant : F.Word) (rm : RoundingMode)
    (fflags : BitVec 32) : F.Result :=
  -- The underflow flag is for an inexact result that is subnormal after the rounding.
  let isSubnormal := aExp ≤ 0 ∧ (aExp < 0 ∨ aMant + addend F aSign rm < F.bit (F.fSize - 1))
  let shifted := if aExp ≤ 0 then rshiftRnd aMant (1 - aExp).toNat else aMant
  let fflags :=
    if isSubnormal ∧ rndBits shifted ≠ 0 then fflags ||| fflagUnderflow else fflags
  let fflags := if rndBits shifted ≠ 0 then fflags ||| fflagInexact else fflags
  let rounded := roundMant aSign shifted rm
  -- Rounding may carry into one more bit.
  let aExp := (if aExp ≤ 0 then 1 else aExp) + (rounded >>> (F.mantSize + 1)).toNat
  if rounded ≤ F.mantMask then (packSf F aSign 0 rounded, fflags)
  else if F.expMask ≤ aExp then
    if addend F aSign rm = 0 then
      (packSf F aSign (F.expMask - 1) F.mantMask, fflags ||| (fflagOverflow ||| fflagInexact))
    else (packSf F aSign F.expMask 0, fflags ||| (fflagOverflow ||| fflagInexact))
  else (packSf F aSign aExp rounded, fflags)

/-- `normalize_sf`. -/
def normalizeSf (F : Format) (aSign : Bool) (aExp : Int) (aMant : F.Word) (rm : RoundingMode)
    (fflags : BitVec 32) : F.Result :=
  let shift := clz aMant - (F.fSize - 1 - F.imantSize)
  roundPackSf F aSign (aExp - shift) (aMant <<< shift) rm fflags

/-- `normalize2_sf`, with the mantissa in two words. -/
def normalize2Sf (F : Format) (aSign : Bool) (aExp : Int) (aMant1 aMant0 : F.Word)
    (rm : RoundingMode) (fflags : BitVec 32) : F.Result :=
  let l := if aMant1 = 0 then F.fSize + clz aMant0 else clz aMant1
  let shift := l - (F.fSize - 1 - F.imantSize)
  let aMant :=
    if shift = 0 then aMant1 ||| if aMant0 = 0 then 0 else 1
    else if shift < F.fSize then
      aMant1 <<< shift ||| aMant0 >>> (F.fSize - shift) ||| if aMant0 <<< shift = 0 then 0 else 1
    else aMant0 <<< (shift - F.fSize)
  roundPackSf F aSign (aExp - shift) aMant rm fflags

/-- `issignan_sf`. -/
def issignanSf (a : F.Word) : Bool :=
  (a >>> (F.mantSize - 1) &&& (F.bit (F.expSize + 1) - 1)) = BitVec.ofNat _ (2 * F.expMask) ∧
    mantOf a ≠ 0

/-- `isnan_sf`. -/
def isnanSf (a : F.Word) : Bool := expOf a = F.expMask ∧ mantOf a ≠ 0

end SoftFloat
end Riscbox

import Riscbox.SoftFloat.Format

/-!
# The arithmetic of the soft floating point
-/

namespace Riscbox
namespace SoftFloat

variable {F : Format}

/-! ## Sums -/

/-- `a` without its sign: `a & ~SIGN_MASK`. -/
def absSf (a : F.Word) : F.Word := a &&& ~~~F.signMask

/-- The sum of two finite numbers of which the first has the greater magnitude. -/
def addFinite (a b : F.Word) (rm : RoundingMode) (fflags : BitVec 32) : F.Result :=
  let aMant := mantOf a <<< 3
  let bMant := mantOf b <<< 3
  let aMant := if expOf a = 0 then aMant else aMant ||| F.bit (F.mantSize + 3)
  let aExp := if expOf a = 0 then 1 else expOf a
  let bMant := if expOf b = 0 then bMant else bMant ||| F.bit (F.mantSize + 3)
  let bExp := if expOf b = 0 then 1 else expOf b
  let bMant := rshiftRnd bMant (aExp - bExp)
  if signOf a = signOf b then
    normalizeSf F (signOf a) (aExp + (F.rndSize - 3 : Nat)) (aMant + bMant) rm fflags
  else
    -- The sign of a zero result depends on the rounding mode only.
    let aSign := if aMant - bMant = 0 then decide (rm = .rdn) else signOf a
    normalizeSf F aSign (aExp + (F.rndSize - 3 : Nat)) (aMant - bMant) rm fflags

/-- `add_sf` with the operands in the order of their magnitudes. -/
def addOrdered (a b : F.Word) (rm : RoundingMode) (fflags : BitVec 32) : F.Result :=
  if expOf a = F.expMask then
    if mantOf a <<< 3 ≠ 0 then
      if mantOf a <<< 3 &&& F.qnanMask <<< 3 = 0 ∨ issignanSf b then
        (F.qnan, fflags ||| fflagInvalidOp)
      else (F.qnan, fflags)
    else if expOf b = F.expMask ∧ signOf a ≠ signOf b then (F.qnan, fflags ||| fflagInvalidOp)
    else (a, fflags)
  else addFinite a b rm fflags

/-- `add_sf`. -/
def addSf (a b : F.Word) (rm : RoundingMode) (fflags : BitVec 32) : F.Result :=
  if absSf a < absSf b then addOrdered b a rm fflags else addOrdered a b rm fflags

/-- `sub_sf`. -/
def subSf (a b : F.Word) (rm : RoundingMode) (fflags : BitVec 32) : F.Result :=
  addSf a (b ^^^ F.signMask) rm fflags

/-! ## Products -/

/-- `normalize_subnormal_sf`: the exponent and the mantissa. -/
def normalizeSubnormalSf (aMant : F.Word) : Int × F.Word :=
  let shift := F.mantSize - (F.fSize - 1 - clz aMant)
  (1 - shift, aMant <<< shift)

/-- The exponent and the mantissa with its leading bit of a finite number but zero. -/
def unpackNormal (a : F.Word) : Int × F.Word :=
  if expOf a = 0 then normalizeSubnormalSf (mantOf a)
  else (expOf a, mantOf a ||| F.bit F.mantSize)

/-- `mul_u` where `F_ULONG` is defined: the high and the low word. -/
def mulULong (a b : F.Word) : F.Word × F.Word :=
  let r : BitVec (F.fSize + F.fSize) := a.setWidth _ * b.setWidth _
  ((r >>> F.fSize).setWidth _, r.setWidth _)

/-- A value as `F_UHALF`. -/
def half (a : F.Word) : BitVec (F.fSize / 2) := a.setWidth _

def word (a : BitVec (F.fSize / 2)) : F.Word := a.setWidth _

/-- The second column of the product by halves: `c` before `r1` is taken from it. -/
def mulColumn1 (r00 r01 r10 : F.Word) : F.Word :=
  r00 >>> (F.fSize / 2) + word (half r01) + word (half r10)

/-- The third column: `c` before `r2` is taken from it. -/
def mulColumn2 (c r01 r10 r11 : F.Word) : F.Word :=
  c >>> (F.fSize / 2) + r01 >>> (F.fSize / 2) + r10 >>> (F.fSize / 2) + word (half r11)

/-- `mul_u` by halves. -/
def mulUHalves (a b : F.Word) : F.Word × F.Word :=
  let a0 := half a
  let a1 := half (a >>> (F.fSize / 2))
  let b0 := half b
  let b1 := half (b >>> (F.fSize / 2))
  let r00 : F.Word := word a0 * word b0
  let r01 : F.Word := word a0 * word b1
  let r10 : F.Word := word a1 * word b0
  let r11 : F.Word := word a1 * word b1
  let c1 := mulColumn1 r00 r01 r10
  let c2 := mulColumn2 c1 r01 r10 r11
  let r3 := half (c2 >>> (F.fSize / 2) + r11 >>> (F.fSize / 2))
  (word r3 <<< (F.fSize / 2) ||| word (half c2), word (half c1) <<< (F.fSize / 2) ||| word (half r00))

/-- `mul_u`. -/
def mulU (a b : F.Word) : F.Word × F.Word :=
  if F.hasUlong then mulULong a b else mulUHalves a b

/-- The product of two finite numbers but zero. -/
def mulFinite (a b : F.Word) (rm : RoundingMode) (fflags : BitVec 32) : F.Result :=
  let (aExp, aMant) := unpackNormal a
  let (bExp, bMant) := unpackNormal b
  let rExp := aExp + bExp - 2 ^ (F.expSize - 1) + 2
  let (rMant, rMantLow) := mulU (aMant <<< F.rndSize) (bMant <<< (F.rndSize + 1))
  let rMant := rMant ||| if rMantLow = 0 then 0 else 1
  normalizeSf F (signOf a ^^ signOf b) rExp rMant rm fflags

/-- `mul_sf`. -/
def mulSf (a b : F.Word) (rm : RoundingMode) (fflags : BitVec 32) : F.Result :=
  let rSign := signOf a ^^ signOf b
  if expOf a = F.expMask ∨ expOf b = F.expMask then
    if isnanSf a ∨ isnanSf b then
      (F.qnan, if issignanSf a ∨ issignanSf b then fflags ||| fflagInvalidOp else fflags)
    else if expOf a = F.expMask ∧ expOf b = 0 ∧ mantOf b = 0 ∨
        expOf b = F.expMask ∧ expOf a = 0 ∧ mantOf a = 0 then
      (F.qnan, fflags ||| fflagInvalidOp)
    else (packSf F rSign F.expMask 0, fflags)
  else if expOf a = 0 ∧ mantOf a = 0 then (packSf F rSign 0 0, fflags)
  else if expOf b = 0 ∧ mantOf b = 0 then (packSf F rSign 0 0, fflags)
  else mulFinite a b rm fflags

/-! ## Fused products and sums -/

/-- A sign, an exponent and a mantissa in two words. -/
structure Term (F : Format) where
  sign : Bool
  exp : Int
  mant1 : F.Word
  mant0 : F.Word

/-- The product, with its leading bit at `F_SIZE - 3` of the upper word. -/
def fmaProduct (a b : F.Word) : Term F :=
  let (aExp, aMant) := unpackNormal a
  let (bExp, bMant) := unpackNormal b
  let rExp := aExp + bExp - 2 ^ (F.expSize - 1) + 3
  let (rMant1, rMant0) := mulU (aMant <<< F.rndSize) (bMant <<< F.rndSize)
  if rMant1 < F.bit (F.fSize - 3) then
    ⟨signOf a ^^ signOf b, rExp - 1, rMant1 <<< 1 ||| rMant0 >>> (F.fSize - 1), rMant0 <<< 1⟩
  else ⟨signOf a ^^ signOf b, rExp, rMant1, rMant0⟩

/-- What is added to the product, with its leading bit at the same place. -/
def fmaAddend (c : F.Word) : Term F :=
  let (cExp, cMant) := unpackNormal c
  ⟨signOf c, cExp + 1, cMant <<< (F.rndSize - 1), 0⟩

/-- The mantissa of a term shifted to the right, with a sticky last bit. -/
def fmaShift (c : Term F) (shift : Nat) : F.Word × F.Word :=
  if 2 * F.fSize ≤ shift then (0, if c.mant0 ||| c.mant1 = 0 then 0 else 1)
  else if F.fSize + 1 ≤ shift then (0, rshiftRnd c.mant1 (shift - F.fSize))
  else if shift = F.fSize then (0, c.mant1 ||| if c.mant0 = 0 then 0 else 1)
  else if shift ≠ 0 then
    (c.mant1 >>> shift,
      c.mant1 <<< (F.fSize - shift) ||| c.mant0 >>> shift |||
        if c.mant0 &&& (F.bit shift - 1) = 0 then 0 else 1)
  else (c.mant1, c.mant0)

/-- The sum of two terms of which the first has the greater magnitude. -/
def fmaSum (r c : Term F) (rm : RoundingMode) (fflags : BitVec 32) : F.Result :=
  let (cMant1, cMant0) := fmaShift c (r.exp - c.exp).toNat
  if r.sign = c.sign then
    let rMant0 := r.mant0 + cMant0
    let rMant1 := r.mant1 + (cMant1 + if rMant0 < cMant0 then 1 else 0)
    normalize2Sf F r.sign r.exp rMant1 rMant0 rm fflags
  else
    let rMant0 := r.mant0 - cMant0
    let rMant1 := r.mant1 - cMant1 - if r.mant0 < rMant0 then 1 else 0
    let rSign := if rMant0 ||| rMant1 = 0 then decide (rm = .rdn) else r.sign
    normalize2Sf F rSign r.exp rMant1 rMant0 rm fflags

/-- The sum of the product and the addend, in the order of their magnitudes. -/
def fmaFinite (a b c : F.Word) (rm : RoundingMode) (fflags : BitVec 32) : F.Result :=
  let r := fmaProduct a b
  if expOf c = 0 ∧ mantOf c = 0 then
    normalizeSf F r.sign r.exp (r.mant1 ||| if r.mant0 = 0 then 0 else 1) rm fflags
  else
    let c := fmaAddend c
    if r.exp > c.exp ∨ r.exp = c.exp ∧ r.mant1 ≥ c.mant1 then fmaSum r c rm fflags
    else fmaSum c r rm fflags

/-- `fma_sf`. -/
def fmaSf (a b c : F.Word) (rm : RoundingMode) (fflags : BitVec 32) : F.Result :=
  let rSign := signOf a ^^ signOf b
  if expOf a = F.expMask ∨ expOf b = F.expMask ∨ expOf c = F.expMask then
    if isnanSf a ∨ isnanSf b ∨ isnanSf c then
      (F.qnan,
        if issignanSf a ∨ issignanSf b ∨ issignanSf c then fflags ||| fflagInvalidOp else fflags)
    else if expOf a = F.expMask ∧ expOf b = 0 ∧ mantOf b = 0 ∨
        expOf b = F.expMask ∧ expOf a = 0 ∧ mantOf a = 0 ∨
        (expOf a = F.expMask ∨ expOf b = F.expMask) ∧ expOf c = F.expMask ∧ rSign ≠ signOf c then
      (F.qnan, fflags ||| fflagInvalidOp)
    else if expOf c = F.expMask then (packSf F (signOf c) F.expMask 0, fflags)
    else (packSf F rSign F.expMask 0, fflags)
  else if expOf a = 0 ∧ mantOf a = 0 ∨ expOf b = 0 ∧ mantOf b = 0 then
    if expOf c = 0 ∧ mantOf c = 0 then
      (packSf F (if signOf c ≠ rSign then decide (rm = .rdn) else rSign) 0 0, fflags)
    else (c, fflags)
  else fmaFinite a b c rm fflags

/-! ## Quotients -/

/-- `divrem_u` where `F_ULONG` is defined: the quotient and the remainder. -/
def divremULong (a1 a0 b : F.Word) : F.Word × F.Word :=
  let a : BitVec (F.fSize + F.fSize) := a1.setWidth _ <<< F.fSize ||| a0.setWidth _
  ((a / b.setWidth _).setWidth _, (a % b.setWidth _).setWidth _)

/-- One bit of the quotient. -/
def divremBit (b : F.Word) (a : F.Word × F.Word) : F.Word × F.Word :=
  let ab := a.1 >>> (F.fSize - 1)
  let a1 := a.1 <<< 1 ||| a.2 >>> (F.fSize - 1)
  if ab ≠ 0 ∨ b ≤ a1 then (a1 - b, a.2 <<< 1 ||| 1) else (a1, a.2 <<< 1 ||| 0)

/-- The loop of `divrem_u` over its remaining bits. -/
def divremLoop (b : F.Word) : Nat → F.Word × F.Word → F.Word × F.Word
  | 0, a => a
  | n + 1, a => divremLoop b n (divremBit b a)

/-- `divrem_u`. -/
def divremU (a1 a0 b : F.Word) : F.Word × F.Word :=
  if F.hasUlong then divremULong a1 a0 b
  else
    let (a1, a0) := divremLoop b F.fSize (a1, a0)
    (a0, a1)

/-- The quotient of two finite numbers but zero. -/
def divFinite (a b : F.Word) (rm : RoundingMode) (fflags : BitVec 32) : F.Result :=
  let (aExp, aMant) := unpackNormal a
  let (bExp, bMant) := unpackNormal b
  let rExp := aExp - bExp + 2 ^ (F.expSize - 1) - 1
  let (rMant, r) := divremU aMant 0 (bMant <<< 2)
  let rMant := rMant ||| if r = 0 then 0 else 1
  normalizeSf F (signOf a ^^ signOf b) rExp rMant rm fflags

/-- `div_sf`. -/
def divSf (a b : F.Word) (rm : RoundingMode) (fflags : BitVec 32) : F.Result :=
  let rSign := signOf a ^^ signOf b
  let nan := (F.qnan, if issignanSf a ∨ issignanSf b then fflags ||| fflagInvalidOp else fflags)
  if expOf a = F.expMask then
    if mantOf a ≠ 0 ∨ isnanSf b then nan
    else if expOf b = F.expMask then (F.qnan, fflags ||| fflagInvalidOp)
    else (packSf F rSign F.expMask 0, fflags)
  else if expOf b = F.expMask then
    if mantOf b ≠ 0 then nan else (packSf F rSign 0 0, fflags)
  else if expOf b = 0 ∧ mantOf b = 0 then
    if expOf a = 0 ∧ mantOf a = 0 then (F.qnan, fflags ||| fflagInvalidOp)
    else (packSf F rSign F.expMask 0, fflags ||| fflagDivideZero)
  else if expOf a = 0 ∧ mantOf a = 0 then (packSf F rSign 0 0, fflags)
  else divFinite a b rm fflags

/-! ## Square roots -/

/-- The loop of `sqrtrem_u` where `F_ULONG` is defined. -/
def newtonLong (a s : BitVec (F.fSize + F.fSize)) : BitVec (F.fSize + F.fSize) :=
  let u := (a / s + s) / 2
  if s ≤ u then s else newtonLong a u
termination_by s.toNat
decreasing_by exact BitVec.lt_def.mp (BitVec.not_le.mp ‹_›)

/-- The loop of `sqrtrem_u` with `divrem_u`. -/
def newton (a1 a0 s : F.Word) : F.Word :=
  let u := ((divremU a1 a0 s).1 + s) / 2
  if s ≤ u then s else newton a1 a0 u
termination_by s.toNat
decreasing_by exact BitVec.lt_def.mp (BitVec.not_le.mp ‹_›)

/-- A bit length with `a ≤ 2 ^ l`. -/
def sqrtBits (a1 a0 : F.Word) : Nat :=
  if a1 ≠ 0 then 2 * F.fSize - clz (a1 - 1) else F.fSize - clz (a0 - 1)

/-- `sqrtrem_u`: whether the number in two words is no square, and its root. -/
def sqrtremU (a1 a0 : F.Word) : Bool × F.Word :=
  if a1 = 0 ∧ a0 = 0 then (false, 0)
  else if F.hasUlong then
    let a : BitVec (F.fSize + F.fSize) := a1.setWidth _ <<< F.fSize ||| a0.setWidth _
    let s := newtonLong a ((1 : BitVec _) <<< ((sqrtBits a1 a0 + 1) / 2))
    (decide (a - s * s ≠ 0), s.setWidth _)
  else
    let s := newton a1 a0 (F.bit ((sqrtBits a1 a0 + 1) / 2))
    let (sq1, sq0) := mulU s s
    (decide (sq0 ≠ a0 ∨ sq1 ≠ a1), s)

/-- The root of a positive finite number. -/
def sqrtFinite (a : F.Word) (rm : RoundingMode) (fflags : BitVec 32) : F.Result :=
  let (aExp, aMant) := unpackNormal a
  let aExp := aExp - (F.expMask / 2 : Nat)
  -- An even exponent.
  let (aExp, aMant) := if aExp % 2 = 1 then (aExp - 1, aMant <<< 1) else (aExp, aMant)
  let aExp := aExp / 2 + (F.expMask / 2 : Nat)
  let (inexact, root) := sqrtremU (aMant <<< (F.fSize - 4 - F.mantSize)) 0
  normalizeSf F false aExp (if inexact then root ||| 1 else root) rm fflags

/-- `sqrt_sf`. -/
def sqrtSf (a : F.Word) (rm : RoundingMode) (fflags : BitVec 32) : F.Result :=
  if expOf a = F.expMask then
    if mantOf a ≠ 0 then (F.qnan, if issignanSf a then fflags ||| fflagInvalidOp else fflags)
    else if signOf a then (F.qnan, fflags ||| fflagInvalidOp)
    else (a, fflags)
  else if signOf a then
    if expOf a = 0 ∧ mantOf a = 0 then (a, fflags) else (F.qnan, fflags ||| fflagInvalidOp)
  else if expOf a = 0 ∧ mantOf a = 0 then (packSf F false 0 0, fflags)
  else sqrtFinite a rm fflags

end SoftFloat
end Riscbox

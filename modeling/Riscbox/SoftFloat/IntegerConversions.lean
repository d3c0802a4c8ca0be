import Riscbox.SoftFloat.Product

/-!
# Conversions to and from integers
-/

namespace Riscbox
namespace SoftFloat

open Rounding Format

attribute [local instance] atLeastTwo

variable {F : Format}

/-! ## The source's functions -/

/-- `ICVT_SIZE`. -/
inductive IcvtSize
  | i32
  | i64
  | i128
  deriving DecidableEq, Repr

def IcvtSize.bits : IcvtSize → ℕ
  | .i32 => 32
  | .i64 => 64
  | .i128 => 128

/-- `ICVT_UINT`. -/
abbrev IcvtSize.Word (I : IcvtSize) := BitVec I.bits

variable (I : IcvtSize)

/-- `r_max`, the magnitude of the last integer on the side of the sign. -/
def icvtMax (isUnsigned aSign : Bool) : I.Word :=
  if isUnsigned then (BitVec.ofBool aSign).setWidth _ - 1
  else (1 : I.Word) <<< (I.bits - 1) - (BitVec.ofBool (!aSign)).setWidth _

/-- `internal_cvt_sf_i`. -/
def internalCvtSfI (a : F.Word) (rm : RoundingMode) (fflags : BitVec 32) (isUnsigned : Bool) :
    I.Word × BitVec 32 :=
  -- A NaN is like a positive infinity.
  let aSign := if expOf a = F.expMask ∧ mantOf a ≠ 0 then false else signOf a
  let aMant := (if expOf a = 0 then mantOf a else mantOf a ||| F.bit F.mantSize) <<< F.rndSize
  let aExp : Int := (if expOf a = 0 then 1 else expOf a) - F.expMask / 2 - F.mantSize
  let rMax := icvtMax I isUnsigned aSign
  let overflow : I.Word × BitVec 32 := (rMax, fflags ||| fflagInvalidOp)
  if 0 ≤ aExp then
    if aExp ≤ I.bits - 1 - F.mantSize then
      let r := (aMant >>> F.rndSize).setWidth I.bits <<< aExp.toNat
      if rMax < r then overflow else (if aSign then -r else r, fflags)
    else overflow
  else
    let aMant := rshiftRnd aMant (-aExp).toNat
    let rounded := roundMant aSign aMant rm
    if rMax.toNat < rounded.toNat then overflow
    else
      let r := rounded.setWidth I.bits
      (if aSign then -r else r,
        if rndBits aMant ≠ 0 then fflags ||| fflagInexact else fflags)

/-- `clz` of an integer. -/
def clzInt {n : ℕ} (r : BitVec n) : ℕ := if r = 0 then n else n - 1 - r.toNat.log2

/-- `internal_cvt_i_sf`. -/
def internalCvtISf (F : Format) (a : I.Word) (rm : RoundingMode) (fflags : BitVec 32)
    (isUnsigned : Bool) : F.Result :=
  let aSign := !isUnsigned && a.msb
  let r := if aSign then -a else a
  let aExp : Int := F.expMask / 2 + F.fSize - 2
  let l := I.bits - clzInt r - (F.fSize - 1)
  -- The mantissa must fit before it is normalized.
  if 0 < l then
    let mask := r &&& ((1 : I.Word) <<< l - 1)
    let r := r >>> l ||| if r &&& mask = 0 then 0 else 1
    normalizeSf F aSign (aExp + l) (r.setWidth _) rm fflags
  else normalizeSf F aSign aExp (r.setWidth _) rm fflags

/-! ## The integers -/

variable {I : IcvtSize}

theorem IcvtSize.bits_ge (I : IcvtSize) : 32 ≤ I.bits := by cases I <;> decide

/-- The integer that a word stands for. -/
def asInt (isUnsigned : Bool) (r : I.Word) : ℤ := if isUnsigned then r.toNat else r.toInt

/-- The last integers of a type. -/
def lastInt (I : IcvtSize) (isUnsigned negative : Bool) : ℤ :=
  if isUnsigned then if negative then 0 else 2 ^ I.bits - 1
  else if negative then -2 ^ (I.bits - 1) else 2 ^ (I.bits - 1) - 1

/-- The integer is one of the type. -/
def InRange (I : IcvtSize) (isUnsigned : Bool) (v : ℤ) : Prop :=
  lastInt I isUnsigned true ≤ v ∧ v ≤ lastInt I isUnsigned false

/-- An integer with its sign apart. -/
def withSign (s : Bool) (n : ℕ) : ℤ := if s then -n else n

theorem two_pow_bits : 2 ^ I.bits = 2 * 2 ^ (I.bits - 1) := by
  have hge := I.bits_ge
  rw [← pow_succ']
  congr 1
  omega

theorem two_zpow_bits :
    (2 : ℤ) ^ I.bits = 2 * ((2 ^ (I.bits - 1) : ℕ) : ℤ) ∧
      (2 : ℤ) ^ (I.bits - 1) = ((2 ^ (I.bits - 1) : ℕ) : ℤ) := by
  have hbits := two_pow_bits (I := I)
  constructor
  · exact_mod_cast hbits
  · push_cast
    rfl

theorem icvtMax_toNat (isUnsigned s : Bool) :
    (icvtMax I isUnsigned s).toNat = (lastInt I isUnsigned s).natAbs := by
  cases I <;> cases isUnsigned <;> cases s <;> decide

theorem inRange_iff (isUnsigned s : Bool) (n : ℕ) :
    InRange I isUnsigned (withSign s n) ↔ n ≤ (icvtMax I isUnsigned s).toNat := by
  have hpos := Nat.two_pow_pos (I.bits - 1)
  obtain ⟨hfull, hhalf⟩ := two_zpow_bits (I := I)
  rw [icvtMax_toNat]
  unfold InRange lastInt withSign
  rw [hfull, hhalf]
  cases isUnsigned <;> cases s <;> simp only [if_true, Bool.false_eq_true, if_false] <;> omega

theorem icvtMax_eq (isUnsigned s : Bool) :
    asInt isUnsigned (icvtMax I isUnsigned s) = lastInt I isUnsigned s := by
  cases I <;> cases isUnsigned <;> cases s <;> decide

/-- A magnitude in range, with its sign put back. -/
theorem asInt_sign (isUnsigned s : Bool) {r : I.Word}
    (h : InRange I isUnsigned (withSign s r.toNat)) :
    asInt isUnsigned (if s then -r else r) = withSign s r.toNat := by
  have hlt := r.isLt
  have hbits := two_pow_bits (I := I)
  have hpos := Nat.two_pow_pos (I.bits - 1)
  obtain ⟨hfull, hhalf⟩ := two_zpow_bits (I := I)
  unfold InRange lastInt withSign at h
  unfold asInt withSign
  rw [hfull, hhalf] at h
  cases isUnsigned <;> cases s <;> simp only [if_true, Bool.false_eq_true, if_false] at h ⊢
  · rw [BitVec.toInt_eq_toNat_of_lt (by omega)]
  · rw [BitVec.toInt_eq_toNat_bmod, BitVec.toNat_neg]
    by_cases hzero : r.toNat = 0
    · rw [hzero, Nat.sub_zero, Nat.mod_self]
      simp
    · rw [Nat.mod_eq_of_lt (by omega), Int.bmod_def, Int.emod_eq_of_lt (by omega) (by omega), hbits]
      omega
  · have hzero : r = 0 := BitVec.eq_of_toNat_eq (by change r.toNat = 0; omega)
    rw [hzero]
    simp

/-! ## From floating point to integers -/

variable {a : F.Word} {rm : RoundingMode} {fflags : BitVec 32} {isUnsigned : Bool}

/-- The value of a finite number, rounded to an integer. -/
noncomputable def roundedInt (rm : RoundingMode) (a : F.Word) : ℤ :=
  if signOf a then -roundInt (rm.direction true) (magnitude a)
  else roundInt (rm.direction false) (magnitude a)

open Classical in
/-- What is asked of a conversion: what has no integer of the type gives the last one on its
side, and the invalid flag alone. -/
structure IsConverted (I : IcvtSize) (isUnsigned : Bool) (rm : RoundingMode) (a : F.Word)
    (fflags : BitVec 32) (r : I.Word × BitVec 32) : Prop where
  nan : IsNan a → asInt isUnsigned r.1 = lastInt I isUnsigned false ∧
    r.2 = fflags ||| fflagInvalidOp
  infinite : IsInfinite a → asInt isUnsigned r.1 = lastInt I isUnsigned (signOf a) ∧
    r.2 = fflags ||| fflagInvalidOp
  inRange : IsFinite a → InRange I isUnsigned (roundedInt rm a) →
    asInt isUnsigned r.1 = roundedInt rm a ∧
      r.2 = if (roundedInt rm a : ℝ) = value a then fflags else fflags ||| fflagInexact
  outside : IsFinite a → ¬ InRange I isUnsigned (roundedInt rm a) →
    asInt isUnsigned r.1 = lastInt I isUnsigned (signOf a) ∧ r.2 = fflags ||| fflagInvalidOp

theorem roundedInt_eq {n : ℕ} (h : roundInt (rm.direction (signOf a)) (magnitude a) = n) :
    roundedInt rm a = withSign (signOf a) n := by
  unfold roundedInt withSign
  cases hs : signOf a <;> rw [hs] at h <;> simp [h]

theorem roundedInt_exact_iff :
    (roundedInt rm a : ℝ) = value a ↔ ∃ n : ℤ, magnitude a = n := by
  unfold roundedInt value
  cases hs : signOf a with
  | false =>
    rw [if_neg Bool.false_ne_true, if_neg Bool.false_ne_true]
    exact roundInt_eq_self
  | true =>
    rw [if_pos rfl, if_pos rfl, Int.cast_neg, neg_inj]
    exact roundInt_eq_self

/-- The mantissa that the conversion works with. -/
def intMant (a : F.Word) : F.Word :=
  (if expOf a = 0 then mantOf a else mantOf a ||| F.bit F.mantSize) <<< F.rndSize

def intExp (a : F.Word) : ℤ := (scale a : ℤ) - F.bias - F.mantSize

theorem intMant_toNat (a : F.Word) : (intMant a).toNat = significand a * 2 ^ F.rndSize := by
  have hsize := F.fSize_rnd
  have hlt := significand_lt a
  have hword : (if expOf a = 0 then mantOf a else mantOf a ||| F.bit F.mantSize).toNat =
      significand a := by
    unfold significand
    split
    · rfl
    · exact or_leading_toNat (mantOf_lt a) (by omega)
  have hfit : significand a * 2 ^ F.rndSize < 2 ^ F.fSize := by
    calc significand a * 2 ^ F.rndSize < 2 ^ (F.mantSize + 1) * 2 ^ F.rndSize :=
          Nat.mul_lt_mul_of_pos_right hlt (Nat.two_pow_pos _)
      _ ≤ 2 ^ F.fSize := by
          rw [← pow_add]
          exact Nat.pow_le_pow_right (by decide) (by omega)
  rw [intMant, shiftLeft_toNat (by rwa [hword]), hword]

theorem magnitude_intExp (a : F.Word) : magnitude a = significand a * 2 ^ intExp a := rfl

/-- The sign that the conversion works with. -/
def intSign (a : F.Word) : Bool := if expOf a = F.expMask ∧ mantOf a ≠ 0 then false else signOf a

theorem intSign_number (h : ¬ IsNan a) : intSign a = signOf a := if_neg h

/-- The conversion of a mantissa that needs no shift to the right. -/
def convertInt (I : IcvtSize) (s : Bool) (n : F.Word) (k : ℕ) (fflags : BitVec 32)
    (isUnsigned : Bool) : I.Word × BitVec 32 :=
  if icvtMax I isUnsigned s < n.setWidth I.bits <<< k then
    (icvtMax I isUnsigned s, fflags ||| fflagInvalidOp)
  else (if s then -(n.setWidth I.bits <<< k) else n.setWidth I.bits <<< k, fflags)

/-- The conversion of a mantissa with bits below the point. -/
def convertFraction (I : IcvtSize) (s : Bool) (m : F.Word) (rm : RoundingMode)
    (fflags : BitVec 32) (isUnsigned : Bool) : I.Word × BitVec 32 :=
  if (icvtMax I isUnsigned s).toNat < (roundMant s m rm).toNat then
    (icvtMax I isUnsigned s, fflags ||| fflagInvalidOp)
  else
    (if s then -((roundMant s m rm).setWidth I.bits) else (roundMant s m rm).setWidth I.bits,
      if rndBits m ≠ 0 then fflags ||| fflagInexact else fflags)

theorem internalCvtSfI_eq (a : F.Word) :
    internalCvtSfI I a rm fflags isUnsigned =
      if 0 ≤ intExp a then
        if intExp a ≤ I.bits - 1 - F.mantSize then
          convertInt I (intSign a) (intMant a >>> F.rndSize) (intExp a).toNat fflags isUnsigned
        else (icvtMax I isUnsigned (intSign a), fflags ||| fflagInvalidOp)
      else
        convertFraction I (intSign a) (rshiftRnd (intMant a) (-intExp a).toNat) rm fflags
          isUnsigned := by
  have hscale : ((if expOf a = 0 then 1 else expOf a : ℕ) : ℤ) - F.expMask / 2 - F.mantSize =
      intExp a := by
    have h : (if expOf a = 0 then 1 else expOf a) = scale a := by
      unfold scale
      split <;> omega
    rw [h]
    rfl
  unfold internalCvtSfI
  dsimp only
  rw [hscale]
  rfl

variable (fflags) in
/-- A magnitude within the last integer is given its sign; past it, the last integer is given. -/
theorem selected (flags : BitVec 32) {s : Bool} {n : ℕ} {r : I.Word}
    (hr : n ≤ (icvtMax I isUnsigned s).toNat → r.toNat = n) :
    (InRange I isUnsigned (withSign s n) →
        ∃ r', (if (icvtMax I isUnsigned s).toNat < n then
            (icvtMax I isUnsigned s, fflags ||| fflagInvalidOp)
          else (if s then -r else r, flags)) = (r', flags) ∧ asInt isUnsigned r' = withSign s n) ∧
      (¬ InRange I isUnsigned (withSign s n) →
        (if (icvtMax I isUnsigned s).toNat < n then
            (icvtMax I isUnsigned s, fflags ||| fflagInvalidOp)
          else (if s then -r else r, flags)) =
          (icvtMax I isUnsigned s, fflags ||| fflagInvalidOp)) := by
  have hrange := inRange_iff (I := I) isUnsigned s n
  constructor
  · intro h
    have hle := hrange.mp h
    have hword := hr hle
    refine ⟨_, if_neg (not_lt.mpr hle), ?_⟩
    rw [← hword] at h ⊢
    exact asInt_sign isUnsigned s h
  · intro h
    exact if_pos (not_le.mp (hrange.not.mp h))

/-- A finite number is converted by the magnitude that its rounding has. -/
theorem IsConverted.of_selected {n : ℕ} {r : I.Word} {flags : BitVec 32} (ha : IsFinite a)
    (hround : roundedInt rm a = withSign (signOf a) n)
    (hr : n ≤ (icvtMax I isUnsigned (signOf a)).toNat → r.toNat = n)
    (hflags : (roundedInt rm a : ℝ) = value a ∧ flags = fflags ∨
      (roundedInt rm a : ℝ) ≠ value a ∧ flags = fflags ||| fflagInexact) :
    IsConverted I isUnsigned rm a fflags
      (if (icvtMax I isUnsigned (signOf a)).toNat < n then
        (icvtMax I isUnsigned (signOf a), fflags ||| fflagInvalidOp)
      else (if signOf a then -r else r, flags)) where
  nan := fun h => absurd h.1 ha
  infinite := fun h => absurd h.1 ha
  inRange := by
    intro _ hin
    rw [hround] at hin
    obtain ⟨r', heq, hr'⟩ := (selected fflags flags hr).1 hin
    rw [heq, hround]
    refine ⟨hr', ?_⟩
    rw [← hround]
    obtain ⟨hexact, hf⟩ | ⟨hinexact, hf⟩ := hflags
    · rw [if_pos hexact, hf]
    · rw [if_neg hinexact, hf]
  outside := by
    intro _ hout
    rw [hround] at hout
    rw [(selected fflags flags hr).2 hout]
    exact ⟨icvtMax_eq isUnsigned (signOf a), rfl⟩

/-- A number past all integers of the type. -/
theorem IsConverted.of_large {n : ℕ} (ha : IsFinite a)
    (hround : roundedInt rm a = withSign (signOf a) n)
    (hn : (icvtMax I isUnsigned (signOf a)).toNat < n) :
    IsConverted I isUnsigned rm a fflags
      (icvtMax I isUnsigned (signOf a), fflags ||| fflagInvalidOp) where
  nan := fun h => absurd h.1 ha
  infinite := fun h => absurd h.1 ha
  inRange := by
    intro _ hin
    rw [hround, inRange_iff] at hin
    exact absurd hin (not_le.mpr hn)
  outside := fun _ _ => ⟨icvtMax_eq isUnsigned (signOf a), rfl⟩

theorem magnitude_integer {k : ℕ} (hk : intExp a = k) :
    magnitude a = ((significand a * 2 ^ k : ℕ) : ℤ) := by
  rw [magnitude_intExp, hk, zpow_natCast]
  push_cast
  rfl

theorem magnitude_fraction {d : ℕ} (hd : intExp a = -(d : ℤ)) :
    magnitude a = (significand a * 2 ^ F.rndSize : ℕ) / 2 ^ d / 2 ^ F.rndSize := by
  rw [magnitude_intExp, hd, zpow_neg, zpow_natCast]
  have hpos := pow_pos (two_pos (α := ℝ)) F.rndSize
  push_cast
  field_simp

/-- The mantissa keeps room for a carry however far it is shifted. -/
theorem small_fraction (a : F.Word) (d : ℕ) : Small (rshiftRnd (intMant a) d) := by
  have hexp : F.fSize - 1 = F.imantSize + 1 := fSize_half
  have himant := imantSize_eq (F := F)
  rw [Small, rshiftRnd_toNat, intMant_toNat, hexp]
  apply sticky_le_half
  calc significand a * 2 ^ F.rndSize / 2 ^ d ≤ significand a * 2 ^ F.rndSize := Nat.div_le_self _ _
    _ < 2 ^ (F.mantSize + 1) * 2 ^ F.rndSize :=
        Nat.mul_lt_mul_of_pos_right (significand_lt a) (Nat.two_pow_pos _)
    _ = 2 ^ (F.imantSize + 1) := by
        rw [← pow_add]
        congr 1
        omega

/-- A mantissa with no bits below the point. -/
theorem convert_integer (ha : IsFinite a) (hexp : 0 ≤ intExp a) :
    IsConverted I isUnsigned rm a fflags (internalCvtSfI I a rm fflags isUnsigned) := by
  have hsign := intSign_number ha.not_nan
  have hmant := intMant_toNat a
  have hsig := significand_lt a
  obtain ⟨k, hk⟩ := Int.eq_ofNat_of_zero_le hexp
  have hmagnitude := magnitude_integer hk
  have hround : roundedInt rm a = withSign (signOf a) (significand a * 2 ^ k) := by
    apply roundedInt_eq
    rw [hmagnitude, roundInt_intCast]
  have hexact : (roundedInt rm a : ℝ) = value a := roundedInt_exact_iff.mpr ⟨_, hmagnitude⟩
  have hquotient : (intMant a >>> F.rndSize).toNat = significand a := by
    rw [BitVec.toNat_ushiftRight, Nat.shiftRight_eq_div_pow, hmant,
      Nat.mul_div_cancel _ (Nat.two_pow_pos _)]
  rw [internalCvtSfI_eq, if_pos hexp, hsign, hk]
  by_cases hfit : (k : ℤ) ≤ I.bits - 1 - F.mantSize
  · have hbound : significand a * 2 ^ k < 2 ^ I.bits := by
      calc significand a * 2 ^ k < 2 ^ (F.mantSize + 1) * 2 ^ k :=
            Nat.mul_lt_mul_of_pos_right hsig (Nat.two_pow_pos k)
        _ ≤ 2 ^ I.bits := by
            rw [← pow_add]
            exact Nat.pow_le_pow_right (by decide) (by omega)
    have hsmall : significand a < 2 ^ I.bits :=
      lt_of_le_of_lt (Nat.le_mul_of_pos_right _ (Nat.two_pow_pos k)) hbound
    have hword : ((intMant a >>> F.rndSize).setWidth I.bits <<< k).toNat = significand a * 2 ^ k := by
      rw [BitVec.toNat_shiftLeft, BitVec.toNat_setWidth, hquotient, Nat.mod_eq_of_lt hsmall,
        Nat.shiftLeft_eq, Nat.mod_eq_of_lt hbound]
    rw [if_pos hfit, Int.toNat_natCast, convertInt]
    simp only [BitVec.lt_def, hword]
    exact IsConverted.of_selected ha hround (fun _ => hword) (Or.inl ⟨hexact, rfl⟩)
  · rw [if_neg hfit]
    apply IsConverted.of_large ha hround
    -- Only a normal number is that large.
    have hnormal : 2 ^ F.mantSize ≤ significand a := by
      apply significand_low
      intro hscale
      have hbias := F.bias_ge
      unfold intExp at hk
      omega
    calc (icvtMax I isUnsigned (signOf a)).toNat < 2 ^ I.bits := BitVec.isLt _
      _ ≤ 2 ^ (F.mantSize + k) := Nat.pow_le_pow_right (by decide) (by omega)
      _ = 2 ^ F.mantSize * 2 ^ k := pow_add _ _ _
      _ ≤ significand a * 2 ^ k := Nat.mul_le_mul_right _ hnormal

/-- A mantissa with bits below the point. -/
theorem convert_fraction (ha : IsFinite a) (hexp : ¬ 0 ≤ intExp a) :
    IsConverted I isUnsigned rm a fflags (internalCvtSfI I a rm fflags isUnsigned) := by
  have hsign := intSign_number ha.not_nan
  have hsize := F.fSize_rnd
  have hge := F.rndSize_ge
  obtain ⟨d, hd⟩ : ∃ d : ℕ, (-intExp a).toNat = d := ⟨_, rfl⟩
  have hmagnitude := magnitude_fraction (by omega : intExp a = -(d : ℤ))
  have hsmall := small_fraction a d
  have halike : Alike (1 / 2) ((rshiftRnd (intMant a) d).toNat / 2 ^ F.rndSize : ℝ)
      (magnitude a) := by
    rw [hmagnitude, rshiftRnd_toNat, intMant_toNat]
    exact fraction_alike (sticky_shift_alike _ d)
  have hrounded := roundMant_eq rm (signOf a) hsmall
  rw [roundInt_alike halike] at hrounded
  have hround := roundedInt_eq hrounded.symm
  have hexact : rndBits (rshiftRnd (intMant a) d) = 0 ↔ (roundedInt rm a : ℝ) = value a := by
    rw [rndBits_eq_zero_iff, roundedInt_exact_iff]
    exact exists_congr fun n => halike.eq_iff _ (int_multiple n)
  rw [internalCvtSfI_eq, if_neg hexp, hsign, hd, convertFraction]
  apply IsConverted.of_selected ha hround
  · intro hle
    rw [BitVec.toNat_setWidth]
    exact Nat.mod_eq_of_lt (lt_of_le_of_lt hle (BitVec.isLt _))
  · by_cases hzero : rndBits (rshiftRnd (intMant a) d) = 0
    · exact Or.inl ⟨hexact.mp hzero, if_neg (not_not.mpr hzero)⟩
    · exact Or.inr ⟨hexact.not.mp hzero, if_pos hzero⟩

/-- What has no value is converted to the last integer on its side. -/
theorem convert_infinite (hbits : I.bits ≤ F.bias + 1) (hmant : F.mantSize ≤ F.bias + 1)
    (ha : expOf a = F.expMask) :
    internalCvtSfI I a rm fflags isUnsigned =
      (icvtMax I isUnsigned (intSign a), fflags ||| fflagInvalidOp) := by
  have hmask := F.expMask_eq
  have hge := F.expMask_ge
  have hexp : intExp a = F.bias + 1 - F.mantSize := by
    have hscale : scale a = F.expMask := by
      rw [scale, ha]
      omega
    rw [intExp, hscale]
    omega
  rw [internalCvtSfI_eq, if_pos (by omega), if_neg (by omega)]

theorem internalCvtSfI_isConverted (hbits : I.bits ≤ F.bias + 1) (hmant : F.mantSize ≤ F.bias + 1)
    (a : F.Word) :
    IsConverted I isUnsigned rm a fflags (internalCvtSfI I a rm fflags isUnsigned) := by
  by_cases ha : IsFinite a
  · by_cases hexp : 0 ≤ intExp a
    · exact convert_integer ha hexp
    · exact convert_fraction ha hexp
  · rw [convert_infinite hbits hmant (not_isFinite.mp ha)]
    constructor
    · intro hnan
      have hsign : intSign a = false := if_pos hnan
      rw [hsign]
      exact ⟨icvtMax_eq isUnsigned false, rfl⟩
    · intro hinf
      rw [intSign_number hinf.not_nan]
      exact ⟨icvtMax_eq isUnsigned (signOf a), rfl⟩
    · exact fun h => absurd h ha
    · exact fun h => absurd h ha

/-! ## From integers to floating point -/

theorem clzInt_bounds {n : ℕ} {r : BitVec n} (hr : r ≠ 0) :
    clzInt r < n ∧ 2 ^ (n - 1 - clzInt r) ≤ r.toNat ∧ r.toNat < 2 ^ (n - clzInt r) := by
  have hne : r.toNat ≠ 0 := fun h => hr (BitVec.eq_of_toNat_eq h)
  have hlog : r.toNat.log2 < n := (Nat.log2_lt hne).mpr r.isLt
  have hclz : clzInt r = n - 1 - r.toNat.log2 := if_neg hr
  have hlow : n - 1 - clzInt r = r.toNat.log2 := by omega
  have hhigh : n - clzInt r = r.toNat.log2 + 1 := by omega
  rw [hlow, hhigh]
  exact ⟨by omega, Nat.log2_self_le hne, Nat.lt_log2_self⟩

/-- The sign of an integer, as the conversion sees it. -/
def negative (isUnsigned : Bool) (r : I.Word) : Bool := !isUnsigned && r.msb

/-- The magnitude of an integer. -/
def intMagnitude (isUnsigned : Bool) (r : I.Word) : I.Word := if negative isUnsigned r then -r else r

theorem asInt_magnitude (isUnsigned : Bool) (r : I.Word) :
    asInt isUnsigned r = withSign (negative isUnsigned r) (intMagnitude isUnsigned r).toNat := by
  have hlt := r.isLt
  have hbits := two_pow_bits (I := I)
  have hmsb : r.msb = decide (2 ^ (I.bits - 1) ≤ r.toNat) := BitVec.msb_eq_decide r
  unfold asInt intMagnitude negative withSign
  cases isUnsigned with
  | true => rfl
  | false =>
    by_cases hneg : 2 ^ (I.bits - 1) ≤ r.toNat
    · have htrue : (!false && r.msb) = true := by simp [hmsb, hneg]
      have hword : (-r).toNat = 2 ^ I.bits - r.toNat := by
        have hpos := Nat.two_pow_pos (I.bits - 1)
        rw [BitVec.toNat_neg]
        exact Nat.mod_eq_of_lt (by omega)
      rw [htrue, if_neg Bool.false_ne_true, if_pos rfl, if_pos rfl, hword,
        BitVec.toInt_eq_toNat_cond, if_neg (by omega)]
      omega
    · have hfalse : (!false && r.msb) = false := by simp [hmsb, hneg]
      rw [hfalse, if_neg Bool.false_ne_true, if_neg Bool.false_ne_true, if_neg Bool.false_ne_true,
        BitVec.toInt_eq_toNat_of_lt (by omega)]

theorem scaled_integer (k : ℕ) (y : ℝ) :
    scaled F (F.expMask / 2 + F.fSize - 2 + k) y = y * 2 ^ k := by
  have hsize := F.fSize_rnd
  have himant := imantSize_eq (F := F)
  have hbias : F.bias = F.expMask / 2 := rfl
  have hexp : (F.expMask : ℤ) / 2 + F.fSize - 2 + k - F.bias - F.imantSize = k := by
    rw [hbias]
    omega
  rw [scaled, hexp, zpow_natCast]

theorem lowBits_toNat {l : ℕ} (r : I.Word) (hl : l < I.bits) :
    (r &&& (r &&& ((1 : I.Word) <<< l - 1))).toNat = r.toNat % 2 ^ l := by
  have hone : (1 : I.Word).toNat = 1 := BitVec.toNat_one (by have := I.bits_ge; omega)
  have hlt : 2 ^ l < 2 ^ I.bits := Nat.pow_lt_pow_right (by decide) hl
  have hpos := Nat.two_pow_pos l
  have hbit : ((1 : I.Word) <<< l).toNat = 2 ^ l := by
    rw [BitVec.toNat_shiftLeft, hone, Nat.one_shiftLeft, Nat.mod_eq_of_lt hlt]
  have hmask : ((1 : I.Word) <<< l - 1).toNat = 2 ^ l - 1 := by
    rw [BitVec.toNat_sub_of_le (by rw [BitVec.le_def, hone, hbit]; omega), hbit, hone]
  rw [← BitVec.and_assoc, BitVec.and_self, BitVec.toNat_and, hmask, Nat.and_two_pow_sub_one_eq_mod]

theorem reduced_toNat {l : ℕ} (r : I.Word) (hl : l < I.bits) :
    (r >>> l ||| if r &&& (r &&& ((1 : I.Word) <<< l - 1)) = 0 then (0 : I.Word) else 1).toNat =
      sticky (r.toNat / 2 ^ l) (r.toNat % 2 ^ l != 0) := by
  have hone : (1 : I.Word).toNat = 1 := BitVec.toNat_one (by have := I.bits_ge; omega)
  have hlow := lowBits_toNat r hl
  rw [BitVec.toNat_or, BitVec.toNat_ushiftRight, Nat.shiftRight_eq_div_pow, ← hlow]
  by_cases hzero : r &&& (r &&& ((1 : I.Word) <<< l - 1)) = 0
  · rw [if_pos hzero, hzero]
    exact Nat.or_zero _
  · have hne : (r &&& (r &&& ((1 : I.Word) <<< l - 1))).toNat ≠ 0 := fun h =>
      hzero (BitVec.eq_of_toNat_eq h)
    rw [if_neg hzero, bne_iff_ne.mpr hne, hone]
    rfl

theorem clzInt_lt {l : ℕ} {r : I.Word} (h : I.bits - clzInt r ≤ l) : r.toNat < 2 ^ l := by
  by_cases hr : r = 0
  · rw [hr]
    exact Nat.two_pow_pos l
  · obtain ⟨_, _, hhigh⟩ := clzInt_bounds hr
    exact hhigh.trans_le (Nat.pow_le_pow_right (by decide) h)

/-- An integer too long for the mantissa, shifted to its leading bits. -/
theorem reduced_isRounded {r : I.Word} (s : Bool) {l : ℕ} (hr : r ≠ 0) (hpos : 0 < l)
    (hl : I.bits - clzInt r - (F.fSize - 1) = l) :
    IsRounded F rm s r.toNat fflags
      (normalizeSf F s (F.expMask / 2 + F.fSize - 2 + (l : ℕ))
        ((r >>> l ||| if r &&& (r &&& ((1 : I.Word) <<< l - 1)) = 0 then 0 else 1).setWidth _)
        rm fflags) := by
  have hsize := F.fSize_rnd
  have hge := F.rndSize_ge
  have hfull := two_pow_half (F := F)
  obtain ⟨hclz, hlow, hhigh⟩ := clzInt_bounds hr
  have hreduced := reduced_toNat r (show l < I.bits by omega)
  generalize (r >>> l ||| if r &&& (r &&& ((1 : I.Word) <<< l - 1)) = 0 then (0 : I.Word) else 1) =
    reduced at hreduced ⊢
  have hquotient : r.toNat / 2 ^ l < 2 ^ (F.fSize - 1) := by
    rw [Nat.div_lt_iff_lt_mul (Nat.two_pow_pos l), ← pow_add]
    exact hhigh.trans_le (Nat.pow_le_pow_right (by decide) (by omega))
  have hsticky : sticky (r.toNat / 2 ^ l) (r.toNat % 2 ^ l != 0) < 2 ^ (F.fSize - 1) := by
    rw [fSize_half] at hquotient ⊢
    exact sticky_le_half hquotient
  have hword : (reduced.setWidth F.fSize).toNat =
      sticky (r.toNat / 2 ^ l) (r.toNat % 2 ^ l != 0) := by
    rw [BitVec.toNat_setWidth, hreduced]
    exact Nat.mod_eq_of_lt (by omega)
  have hexact : (r.toNat : ℝ) = scaled F (F.expMask / 2 + F.fSize - 2 + l) (r.toNat / 2 ^ l) := by
    rw [scaled_integer, div_mul_cancel₀ _ (pow_ne_zero l two_ne_zero)]
  rw [hexact]
  apply normalizeSf_sticky
  · rw [Small, hword]
    exact hsticky
  · rw [hword]
    exact sticky_shift_alike _ _
  · right
    rw [hword]
    refine le_trans ?_ (le_sticky _ _)
    rw [Nat.le_div_iff_mul_le (Nat.two_pow_pos l), ← pow_add]
    exact (Nat.pow_le_pow_right (by decide) (by omega)).trans hlow

theorem whole_isRounded {r : I.Word} (s : Bool) (hlt : r.toNat < 2 ^ (F.fSize - 1)) :
    IsRounded F rm s r.toNat fflags
      (normalizeSf F s (F.expMask / 2 + F.fSize - 2) (r.setWidth _) rm fflags) := by
  have hfull := two_pow_half (F := F)
  have hword : (r.setWidth F.fSize).toNat = r.toNat := by
    rw [BitVec.toNat_setWidth]
    exact Nat.mod_eq_of_lt (by omega)
  have hexact := scaled_integer (F := F) 0 (r.toNat : ℝ)
  rw [pow_zero, mul_one, Nat.cast_zero, add_zero] at hexact
  rw [← hexact, ← hword]
  apply normalizeSf_isRounded
  rw [Small, hword]
  exact hlt

/-- The rounded magnitude of an integer. -/
theorem internalCvtISf_magnitude (r : I.Word) (s : Bool) :
    IsRounded F rm s r.toNat fflags
      (if 0 < I.bits - clzInt r - (F.fSize - 1) then
        normalizeSf F s (F.expMask / 2 + F.fSize - 2 + (I.bits - clzInt r - (F.fSize - 1) : ℕ))
          ((r >>> (I.bits - clzInt r - (F.fSize - 1)) |||
            if r &&& (r &&& ((1 : I.Word) <<< (I.bits - clzInt r - (F.fSize - 1)) - 1)) = 0 then 0
            else 1).setWidth _) rm fflags
      else normalizeSf F s (F.expMask / 2 + F.fSize - 2) (r.setWidth _) rm fflags) := by
  split
  case isTrue hpos =>
    have hr : r ≠ 0 := by
      rintro rfl
      have hclz : clzInt (0 : I.Word) = I.bits := if_pos rfl
      omega
    exact reduced_isRounded s hr hpos rfl
  case isFalse hnone => exact whole_isRounded s (clzInt_lt (by omega))

theorem negative_eq (isUnsigned : Bool) (a : I.Word) :
    negative isUnsigned a = decide (asInt isUnsigned a < 0) := by
  unfold negative asInt
  cases isUnsigned with
  | false => exact BitVec.msb_eq_toInt
  | true => exact (decide_eq_false (Int.not_lt.mpr (Int.natCast_nonneg _))).symm

theorem abs_withSign (s : Bool) (n : ℕ) : |((withSign s n : ℤ) : ℝ)| = n := by
  cases s <;> simp [withSign]

/-- `internal_cvt_i_sf` is the correctly rounded integer. -/
theorem internalCvtISf_isRounded (F : Format) (a : I.Word) (rm : RoundingMode)
    (fflags : BitVec 32) (isUnsigned : Bool) :
    IsRounded F rm (decide (asInt isUnsigned a < 0)) |(asInt isUnsigned a : ℝ)| fflags
      (internalCvtISf I F a rm fflags isUnsigned) := by
  rw [← negative_eq, asInt_magnitude, abs_withSign]
  exact internalCvtISf_magnitude (intMagnitude isUnsigned a) (negative isUnsigned a)

end SoftFloat
end Riscbox

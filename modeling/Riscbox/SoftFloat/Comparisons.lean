import Riscbox.SoftFloat.Sum

/-!
# Comparisons and kinds

The comparisons read the words as integers with a sign and never unpack them.
-/

namespace Riscbox
namespace SoftFloat

open Rounding Format

attribute [local instance] atLeastTwo

variable {F : Format}

/-! ## The source's functions -/

/-- `SoftFPMinMaxTypeEnum`. -/
inductive MinMaxType
  | prop
  | ieee754_2008
  | ieee754_201X
  deriving DecidableEq, Repr

/-- `min_max_nan_sf`. -/
def minMaxNanSf (a b : F.Word) (fflags : BitVec 32) (minmaxType : MinMaxType) : F.Result :=
  let signaling := issignanSf a || issignanSf b
  let fflags := if signaling then fflags ||| fflagInvalidOp else fflags
  if signaling ∧ minmaxType = .ieee754_2008 then (F.qnan, fflags)
  else if minmaxType = .prop then (F.qnan, fflags)
  else if isnanSf a then if isnanSf b then (F.qnan, fflags) else (b, fflags)
  else (a, fflags)

/-- `min_sf`. -/
def minSf (a b : F.Word) (fflags : BitVec 32) (minmaxType : MinMaxType) : F.Result :=
  if isnanSf a ∨ isnanSf b then minMaxNanSf a b fflags minmaxType
  else if signOf a ≠ signOf b then if signOf a then (a, fflags) else (b, fflags)
  else if decide (a < b) ^^ signOf a then (a, fflags)
  else (b, fflags)

/-- `max_sf`. -/
def maxSf (a b : F.Word) (fflags : BitVec 32) (minmaxType : MinMaxType) : F.Result :=
  if isnanSf a ∨ isnanSf b then minMaxNanSf a b fflags minmaxType
  else if signOf a ≠ signOf b then if signOf a then (b, fflags) else (a, fflags)
  else if decide (a < b) ^^ signOf a then (b, fflags)
  else (a, fflags)

/-- `eq_quiet_sf`. -/
def eqQuietSf (a b : F.Word) (fflags : BitVec 32) : Bool × BitVec 32 :=
  if isnanSf a ∨ isnanSf b then
    (false, if issignanSf a ∨ issignanSf b then fflags ||| fflagInvalidOp else fflags)
  else if (a ||| b) <<< 1 = 0 then (true, fflags)
  else (a = b, fflags)

/-- `le_sf`. -/
def leSf (a b : F.Word) (fflags : BitVec 32) : Bool × BitVec 32 :=
  if isnanSf a ∨ isnanSf b then (false, fflags ||| fflagInvalidOp)
  else if signOf a ≠ signOf b then (signOf a || ((a ||| b) <<< 1 = 0), fflags)
  else if signOf a then (b ≤ a, fflags)
  else (a ≤ b, fflags)

/-- `lt_sf`. -/
def ltSf (a b : F.Word) (fflags : BitVec 32) : Bool × BitVec 32 :=
  if isnanSf a ∨ isnanSf b then (false, fflags ||| fflagInvalidOp)
  else if signOf a ≠ signOf b then (signOf a && ((a ||| b) <<< 1 ≠ 0), fflags)
  else if signOf a then (b < a, fflags)
  else (a < b, fflags)

/-- `fclass_sf`. -/
def fclassSf (a : F.Word) : BitVec 32 :=
  if expOf a = F.expMask then
    if mantOf a ≠ 0 then if mantOf a &&& F.qnanMask ≠ 0 then 1 <<< 9 else 1 <<< 8
    else if signOf a then 1 <<< 0 else 1 <<< 7
  else if expOf a = 0 then
    if mantOf a = 0 then if signOf a then 1 <<< 3 else 1 <<< 4
    else if signOf a then 1 <<< 2 else 1 <<< 5
  else if signOf a then 1 <<< 1 else 1 <<< 6

/-! ## The order of the words -/

variable {a b : F.Word} {fflags : BitVec 32}

/-- The word below its sign. -/
def low (a : F.Word) : ℕ := a.toNat % 2 ^ (F.fSize - 1)

/-- The word as an integer with a sign. -/
def key (a : F.Word) : ℤ := if signOf a then -low a else low a

/-- The value in the real line with its ends. -/
noncomputable def extended (a : F.Word) : EReal :=
  if IsInfinite a then if signOf a then ⊥ else ⊤ else (value a : ℝ)

theorem word_low (a : F.Word) : a.toNat = (signOf a).toNat * 2 ^ (F.fSize - 1) + low a := by
  rw [word_eq, fields_low]
  rfl

theorem low_lt (a : F.Word) : low a < 2 ^ (F.fSize - 1) := Nat.mod_lt _ (Nat.two_pow_pos _)

theorem low_eq_fields (a : F.Word) :
    low a = expOf a * 2 ^ F.mantSize + (mantOf a).toNat := (fields_low a).symm

/-- What the low part of an infinity is. -/
def lowInfinity (F : Format) : ℕ := F.expMask * 2 ^ F.mantSize

theorem low_infinite (h : IsInfinite a) : low a = lowInfinity F := by
  rw [low_eq_fields, h.1, h.2, zero_toNat, Nat.add_zero, lowInfinity]

theorem low_finite (h : IsFinite a) : low a < lowInfinity F := by
  have hmant := mantOf_lt a
  have hlt : expOf a + 1 ≤ F.expMask := lt_of_le_of_ne (expOf_le a) h
  have hmul := Nat.mul_le_mul_right (2 ^ F.mantSize) hlt
  rw [Nat.succ_mul] at hmul
  rw [low_eq_fields, lowInfinity]
  omega

theorem finite_of_number (h : ¬ IsNan a) (hinf : ¬ IsInfinite a) : IsFinite a := by
  intro hexp
  exact (infinite_or_nan hexp).elim hinf h

theorem magnitude_lt_low : magnitude a < magnitude b ↔ low a < low b := magnitude_lt_iff

theorem magnitude_eq_low : magnitude a = magnitude b ↔ low a = low b := magnitude_eq_iff

theorem low_eq_zero_iff : low a = 0 ↔ IsZero a := by
  have hpos := Nat.two_pow_pos F.mantSize
  rw [low_eq_fields, Nat.add_eq_zero_iff, Nat.mul_eq_zero, or_iff_left hpos.ne', toNat_eq_zero_iff]
  rfl

theorem magnitude_pos_low : 0 < magnitude a ↔ 0 < low a := by
  rw [(magnitude_nonneg a).lt_iff_ne', Nat.pos_iff_ne_zero, ne_eq, ne_eq, magnitude_eq_zero_iff,
    low_eq_zero_iff]

/-- The finite values are ordered as the integers. -/
theorem value_lt_of_key (h : key a < key b) : value a < value b := by
  have ha := magnitude_nonneg a
  have hb := magnitude_nonneg b
  have hapos := magnitude_pos_low (a := a)
  have hbpos := magnitude_pos_low (a := b)
  unfold key at h
  unfold value
  cases hsa : signOf a <;> cases hsb : signOf b <;>
    simp only [hsa, hsb, if_true, Bool.false_eq_true, if_false] at h ⊢
  · exact magnitude_lt_low.mpr (by omega)
  · omega
  · obtain hlow | hlow : 0 < low a ∨ 0 < low b := by omega
    · linarith [hapos.mpr hlow]
    · linarith [hbpos.mpr hlow]
  · exact neg_lt_neg (magnitude_lt_low.mpr (by omega))

theorem value_eq_of_key (h : key a = key b) : value a = value b := by
  have hzero : ∀ c : F.Word, low c = 0 → magnitude c = 0 := fun c hc =>
    magnitude_eq_zero_iff.mpr (low_eq_zero_iff.mp hc)
  unfold key at h
  unfold value
  cases hsa : signOf a <;> cases hsb : signOf b <;>
    simp only [hsa, hsb, if_true, Bool.false_eq_true, if_false] at h ⊢
  · exact magnitude_eq_low.mpr (by omega)
  · rw [hzero a (by omega), hzero b (by omega), neg_zero]
  · rw [hzero a (by omega), hzero b (by omega), neg_zero]
  · rw [magnitude_eq_low.mpr (show low a = low b by omega)]

theorem abs_key_le (h : ¬ IsNan a) : |key a| ≤ lowInfinity F := by
  have hlow : low a ≤ lowInfinity F := by
    by_cases hinf : IsInfinite a
    · exact (low_infinite hinf).le
    · exact (low_finite (finite_of_number h hinf)).le
  rw [abs_le]
  unfold key
  split <;> omega

theorem key_infinite (h : IsInfinite a) :
    key a = if signOf a then -(lowInfinity F : ℤ) else lowInfinity F := by
  rw [key, low_infinite h]

theorem extended_lt_of_key (ha : ¬ IsNan a) (hb : ¬ IsNan b) (h : key a < key b) :
    extended a < extended b := by
  have hla := abs_le.mp (abs_key_le ha)
  have hlb := abs_le.mp (abs_key_le hb)
  unfold extended
  by_cases hia : IsInfinite a
  · have hkey := key_infinite hia
    cases hsa : signOf a with
    | false =>
      rw [hsa, if_neg Bool.false_ne_true] at hkey
      omega
    | true =>
      rw [if_pos hia, if_pos rfl, bot_lt_iff_ne_bot]
      split
      case isFalse => exact EReal.coe_ne_bot _
      case isTrue hib =>
        have hkeyB := key_infinite hib
        cases hsb : signOf b with
        | false => exact top_ne_bot
        | true =>
          rw [hsa, if_pos rfl] at hkey
          rw [hsb, if_pos rfl] at hkeyB
          omega
  · rw [if_neg hia]
    split
    case isFalse => exact EReal.coe_lt_coe_iff.mpr (value_lt_of_key h)
    case isTrue hib =>
      have hkeyB := key_infinite hib
      cases hsb : signOf b with
      | false => exact EReal.coe_lt_top _
      | true =>
        rw [hsb, if_pos rfl] at hkeyB
        omega

theorem infinite_of_key (hb : ¬ IsNan b) (hkey : key a = key b) (ha : IsInfinite a) :
    IsInfinite b ∧ signOf b = signOf a := by
  have hinf := key_infinite ha
  have hpos : 0 < lowInfinity F := Nat.mul_pos (by have := F.expMask_ge; omega) (Nat.two_pow_pos _)
  have hib : IsInfinite b := by
    by_contra hnot
    have hlow := low_finite (finite_of_number hb hnot)
    rw [hkey] at hinf
    unfold key at hinf
    split at hinf <;> split at hinf <;> omega
  have hinfB := key_infinite hib
  refine ⟨hib, ?_⟩
  cases hsa : signOf a <;> cases hsb : signOf b <;>
    simp only [hsa, hsb, if_true, Bool.false_eq_true, if_false] at hinf hinfB
  · rfl
  · omega
  · omega
  · rfl

theorem extended_eq_of_key (ha : ¬ IsNan a) (hb : ¬ IsNan b) (h : key a = key b) :
    extended a = extended b := by
  unfold extended
  by_cases hia : IsInfinite a
  · obtain ⟨hib, hsign⟩ := infinite_of_key hb h hia
    rw [if_pos hia, if_pos hib, hsign]
  · have hib : ¬ IsInfinite b := fun hib => hia (infinite_of_key ha h.symm hib).1
    rw [if_neg hia, if_neg hib, value_eq_of_key h]

/-- The words of numbers are ordered as what they stand for. -/
theorem extended_lt_iff (ha : ¬ IsNan a) (hb : ¬ IsNan b) :
    extended a < extended b ↔ key a < key b := by
  refine ⟨fun h => ?_, extended_lt_of_key ha hb⟩
  by_contra hle
  obtain heq | hlt := (not_lt.mp hle).eq_or_lt
  · exact absurd (extended_eq_of_key hb ha heq) h.ne'
  · exact absurd (extended_lt_of_key hb ha hlt) h.not_gt

theorem extended_eq_iff (ha : ¬ IsNan a) (hb : ¬ IsNan b) :
    extended a = extended b ↔ key a = key b := by
  refine ⟨fun h => ?_, extended_eq_of_key ha hb⟩
  by_contra hne
  obtain hlt | hlt := lt_or_gt_of_ne hne
  · exact absurd h (extended_lt_of_key ha hb hlt).ne
  · exact absurd h (extended_lt_of_key hb ha hlt).ne'

theorem extended_le_iff (ha : ¬ IsNan a) (hb : ¬ IsNan b) :
    extended a ≤ extended b ↔ key a ≤ key b := by
  rw [← not_lt, extended_lt_iff hb ha, not_lt]

/-! ## What the comparisons see -/

theorem key_of_sign (h : signOf a = signOf b) (c : Bool) (hc : signOf a = c) :
    (key a < key b ↔ if c then b.toNat < a.toNat else a.toNat < b.toNat) := by
  have hwa := word_low a
  have hwb := word_low b
  unfold key
  rw [hwa, hwb, ← h, hc]
  cases c with
  | false => simp only [Bool.false_eq_true, if_false]; omega
  | true => simp only [if_true]; omega

theorem zeros_iff : (a ||| b) <<< 1 = 0 ↔ low a = 0 ∧ low b = 0 := by
  have hsize := F.fSize_eq
  have hsplit : 2 ^ F.fSize = 2 ^ (F.fSize - 1) * 2 := by
    rw [← pow_succ]
    congr 1
    omega
  rw [← toNat_eq_zero_iff, BitVec.toNat_shiftLeft, Nat.shiftLeft_eq, pow_one, hsplit,
    Nat.mul_mod_mul_right, Nat.mul_eq_zero, or_iff_left (by decide : ¬ 2 = 0), BitVec.toNat_or,
    Nat.or_mod_two_pow, Nat.or_eq_zero_iff]
  rfl

/-- Numbers of different signs are apart, but for the two zeros. -/
theorem key_lt_of_signs (h : signOf a ≠ signOf b) :
    key a < key b ↔ signOf a = true ∧ ¬ (low a = 0 ∧ low b = 0) := by
  unfold key
  cases hsa : signOf a with
  | false =>
    have hsb : signOf b = true := by simpa [hsa] using h
    rw [if_neg Bool.false_ne_true, if_pos hsb]
    simp only [Bool.false_eq_true, false_and, iff_false]
    omega
  | true =>
    have hsb : ¬ signOf b = true := by simpa [hsa] using h
    rw [if_pos rfl, if_neg hsb]
    simp only [true_and]
    omega

theorem key_le_of_signs (h : signOf a ≠ signOf b) :
    key a ≤ key b ↔ signOf a = true ∨ low a = 0 ∧ low b = 0 := by
  have hneg : signOf b = true ↔ ¬ signOf a = true := by
    cases hsa : signOf a <;> cases hsb : signOf b <;> simp [hsa, hsb] at h ⊢
  rw [← not_lt, key_lt_of_signs h.symm, hneg, and_comm (a := low b = 0)]
  tauto

theorem number_iff : ¬ (isnanSf a = true ∨ isnanSf b = true) ↔ ¬ IsNan a ∧ ¬ IsNan b := by
  rw [isnanSf_iff, isnanSf_iff, not_or]

theorem ltSf_number (ha : ¬ IsNan a) (hb : ¬ IsNan b) :
    ltSf a b fflags = (decide (key a < key b), fflags) := by
  unfold ltSf
  rw [if_neg (number_iff.mpr ⟨ha, hb⟩)]
  by_cases hsign : signOf a = signOf b
  · have hkey := key_of_sign hsign
    rw [if_neg (not_not.mpr hsign)]
    cases hsa : signOf a with
    | false =>
      rw [if_neg Bool.false_ne_true, decide_eq_decide.mpr (hkey false hsa)]
      rfl
    | true =>
      rw [if_pos rfl, decide_eq_decide.mpr (hkey true hsa)]
      rfl
  · rw [if_pos hsign]
    congr 1
    rw [Bool.eq_iff_iff, Bool.and_eq_true, decide_eq_true_iff, decide_eq_true_iff, ne_eq, zeros_iff]
    exact (key_lt_of_signs hsign).symm

theorem leSf_number (ha : ¬ IsNan a) (hb : ¬ IsNan b) :
    leSf a b fflags = (decide (key a ≤ key b), fflags) := by
  unfold leSf
  rw [if_neg (number_iff.mpr ⟨ha, hb⟩)]
  by_cases hsign : signOf a = signOf b
  · have hkey := key_of_sign hsign.symm
    have hle : key a ≤ key b ↔ ¬ key b < key a := not_lt.symm
    rw [if_neg (not_not.mpr hsign)]
    cases hsa : signOf a with
    | false =>
      have hword : key a ≤ key b ↔ a ≤ b :=
        (hle.trans (hkey false (hsign ▸ hsa)).not).trans not_lt
      rw [if_neg Bool.false_ne_true, decide_eq_decide.mpr hword]
    | true =>
      have hword : key a ≤ key b ↔ b ≤ a :=
        (hle.trans (hkey true (hsign ▸ hsa)).not).trans not_lt
      rw [if_pos rfl, decide_eq_decide.mpr hword]
  · rw [if_pos hsign]
    congr 1
    rw [Bool.eq_iff_iff, Bool.or_eq_true, decide_eq_true_iff, decide_eq_true_iff, zeros_iff]
    exact (key_le_of_signs hsign).symm

theorem eq_iff_sign_low : a = b ↔ signOf a = signOf b ∧ low a = low b := by
  constructor
  · rintro rfl
    exact ⟨rfl, rfl⟩
  · rintro ⟨hsign, hlow⟩
    apply BitVec.eq_of_toNat_eq
    rw [word_low a, word_low b, hsign, hlow]

theorem eqQuietSf_number (ha : ¬ IsNan a) (hb : ¬ IsNan b) :
    eqQuietSf a b fflags = (decide (key a = key b), fflags) := by
  unfold eqQuietSf
  rw [if_neg (number_iff.mpr ⟨ha, hb⟩)]
  by_cases hzeros : low a = 0 ∧ low b = 0
  · have hkey : key a = key b := by
      unfold key
      split <;> split <;> omega
    rw [if_pos (zeros_iff.mpr hzeros), decide_eq_true hkey]
  · rw [if_neg (zeros_iff.not.mpr hzeros)]
    congr 1
    rw [decide_eq_decide, eq_iff_sign_low]
    unfold key
    cases hsa : signOf a <;> cases hsb : signOf b <;>
      simp <;> omega

/-- What the standard asks of the comparisons, of which only the equality is quiet. -/
structure AreComparisons (a b : F.Word) (fflags : BitVec 32) : Prop where
  unordered : IsNan a ∨ IsNan b →
    ltSf a b fflags = (false, fflags ||| fflagInvalidOp) ∧
    leSf a b fflags = (false, fflags ||| fflagInvalidOp) ∧
    eqQuietSf a b fflags =
      (false, if IsSignaling a ∨ IsSignaling b then fflags ||| fflagInvalidOp else fflags)
  ordered : ¬ IsNan a → ¬ IsNan b →
    (∃ lt, ltSf a b fflags = (lt, fflags) ∧ (lt = true ↔ extended a < extended b)) ∧
    (∃ le, leSf a b fflags = (le, fflags) ∧ (le = true ↔ extended a ≤ extended b)) ∧
    ∃ eq, eqQuietSf a b fflags = (eq, fflags) ∧ (eq = true ↔ extended a = extended b)

/-- The comparisons are those of the values, the infinite ones included. -/
theorem comparisons_correct (a b : F.Word) (fflags : BitVec 32) :
    AreComparisons a b fflags where
  unordered := by
    intro h
    have hnan : isnanSf a = true ∨ isnanSf b = true := by rwa [isnanSf_iff, isnanSf_iff]
    unfold ltSf leSf eqQuietSf
    rw [if_pos hnan, if_pos hnan, if_pos hnan]
    simp only [issignanSf_iff, and_self]
  ordered := by
    intro ha hb
    refine ⟨⟨_, ltSf_number ha hb, ?_⟩, ⟨_, leSf_number ha hb, ?_⟩, _, eqQuietSf_number ha hb, ?_⟩
    · rw [decide_eq_true_iff, extended_lt_iff ha hb]
    · rw [decide_eq_true_iff, extended_le_iff ha hb]
    · rw [decide_eq_true_iff, extended_eq_iff ha hb]

/-! ## The smaller and the greater of two numbers -/

/-- What `min_sf` and `max_sf` give: of a number and a NaN, the number, but for the types
that ask for the NaN. -/
structure IsExtremum (greatest : Bool) (minmaxType : MinMaxType) (a b : F.Word)
    (fflags : BitVec 32) (r : F.Result) : Prop where
  flags : r.2 = if IsSignaling a ∨ IsSignaling b then fflags ||| fflagInvalidOp else fflags
  quiet : IsNan a ∧ IsNan b ∨ (IsNan a ∨ IsNan b) ∧ minmaxType = .prop ∨
    (IsSignaling a ∨ IsSignaling b) ∧ minmaxType = .ieee754_2008 → r.1 = F.qnan
  left : IsNan b → ¬ IsNan a → minmaxType ≠ .prop →
    (IsSignaling b → minmaxType ≠ .ieee754_2008) → r.1 = a
  right : IsNan a → ¬ IsNan b → minmaxType ≠ .prop →
    (IsSignaling a → minmaxType ≠ .ieee754_2008) → r.1 = b
  numbers : ¬ IsNan a → ¬ IsNan b → (r.1 = a ∨ r.1 = b) ∧
    extended r.1 =
      if greatest then max (extended a) (extended b) else min (extended a) (extended b)
  zeros : IsZero a → IsZero b →
    signOf r.1 = if greatest then signOf a && signOf b else signOf a || signOf b

theorem minMaxNanSf_eq (minmaxType : MinMaxType) :
    minMaxNanSf a b fflags minmaxType =
      (if (IsSignaling a ∨ IsSignaling b) ∧ minmaxType = .ieee754_2008 ∨ minmaxType = .prop ∨
          IsNan a ∧ IsNan b then F.qnan
        else if IsNan a then b else a,
        if IsSignaling a ∨ IsSignaling b then fflags ||| fflagInvalidOp else fflags) := by
  unfold minMaxNanSf
  simp only [Bool.or_eq_true, issignanSf_iff, isnanSf_iff]
  by_cases h2008 : (IsSignaling a ∨ IsSignaling b) ∧ minmaxType = .ieee754_2008
  · rw [if_pos h2008, if_pos (Or.inl h2008)]
  · rw [if_neg h2008]
    by_cases hprop : minmaxType = .prop
    · rw [if_pos hprop, if_pos (Or.inr (Or.inl hprop))]
    · rw [if_neg hprop]
      simp only [h2008, hprop, false_or]
      by_cases ha : IsNan a
      · by_cases hb : IsNan b
        · simp only [ha, hb, and_self, if_true]
        · simp only [ha, hb, and_false, if_true, if_false]
      · simp only [ha, false_and, if_false]

theorem minMaxNanSf_isExtremum (greatest : Bool) (minmaxType : MinMaxType)
    (h : IsNan a ∨ IsNan b) :
    IsExtremum greatest minmaxType a b fflags (minMaxNanSf a b fflags minmaxType) := by
  rw [minMaxNanSf_eq]
  have hsig : ∀ c : F.Word, IsSignaling c → IsNan c := fun c hc => hc.1
  constructor
  · rfl
  · rintro (hboth | ⟨_, hprop⟩ | h2008)
    · exact if_pos (Or.inr (Or.inr hboth))
    · exact if_pos (Or.inr (Or.inl hprop))
    · exact if_pos (Or.inl h2008)
  · intro hb ha hprop h2008
    dsimp only
    rw [if_neg, if_neg ha]
    rintro (⟨hsa | hsb, htype⟩ | htype | hboth)
    · exact ha (hsig a hsa)
    · exact h2008 hsb htype
    · exact hprop htype
    · exact ha hboth.1
  · intro ha hb hprop h2008
    dsimp only
    rw [if_neg, if_pos ha]
    rintro (⟨hsa | hsb, htype⟩ | htype | hboth)
    · exact h2008 hsa htype
    · exact hb (hsig b hsb)
    · exact hprop htype
    · exact hb hboth.2
  · intro ha hb
    exact absurd h (not_or.mpr ⟨ha, hb⟩)
  · intro ha hb
    exact absurd h (not_or.mpr ⟨(finite_zero ha).not_nan, (finite_zero hb).not_nan⟩)

/-- The first of two numbers is the smaller one, a negative zero being below a positive one. -/
def first (a b : F.Word) : Bool :=
  if signOf a ≠ signOf b then signOf a else decide (a < b) ^^ signOf a

theorem first_iff :
    (first a b = true → key a ≤ key b) ∧ (first a b = false → key b ≤ key a) := by
  unfold first
  by_cases hsign : signOf a = signOf b
  · have hkey := key_of_sign hsign
    have hkey' := key_of_sign hsign.symm
    rw [if_neg (not_not.mpr hsign)]
    cases hsa : signOf a with
    | false =>
      have hlt := hkey false hsa
      rw [if_neg Bool.false_ne_true] at hlt
      rw [Bool.xor_false, decide_eq_true_iff, decide_eq_false_iff_not, BitVec.lt_def, ← hlt]
      omega
    | true =>
      have hgt := hkey' true (hsign ▸ hsa)
      rw [if_pos rfl] at hgt
      rw [Bool.xor_true, Bool.not_eq_true', Bool.not_eq_false', decide_eq_true_iff,
        decide_eq_false_iff_not, BitVec.lt_def, ← hgt]
      omega
  · rw [if_pos hsign]
    unfold key
    cases hsa : signOf a <;> cases hsb : signOf b <;> simp [hsa, hsb] at hsign ⊢

theorem first_signs :
    (first a b = true → signOf a = (signOf a || signOf b) ∧ signOf b = (signOf a && signOf b)) ∧
      (first a b = false → signOf b = (signOf a || signOf b) ∧ signOf a = (signOf a && signOf b)) := by
  unfold first
  cases hsa : signOf a <;> cases hsb : signOf b <;> simp

variable (fflags) in
theorem minSf_number (minmaxType : MinMaxType) (ha : ¬ IsNan a) (hb : ¬ IsNan b) :
    minSf a b fflags minmaxType = (if first a b then a else b, fflags) ∧
      maxSf a b fflags minmaxType = (if first a b then b else a, fflags) := by
  unfold minSf maxSf first
  rw [if_neg (number_iff.mpr ⟨ha, hb⟩), if_neg (number_iff.mpr ⟨ha, hb⟩)]
  by_cases hsign : signOf a = signOf b
  · simp only [ne_eq, hsign, not_true_eq_false, if_false]
    split <;> exact ⟨rfl, rfl⟩
  · simp only [ne_eq, hsign, not_false_eq_true, if_true]
    split <;> exact ⟨rfl, rfl⟩

variable (fflags) in
/-- The one of two numbers that comes first or last. -/
theorem number_isExtremum (greatest : Bool) (minmaxType : MinMaxType) (ha : ¬ IsNan a)
    (hb : ¬ IsNan b) :
    IsExtremum greatest minmaxType a b fflags
      (if first a b ^^ greatest then a else b, fflags) := by
  have hsig : ∀ c : F.Word, ¬ IsNan c → ¬ IsSignaling c := fun c hc h => hc h.1
  have hnone : ¬ (IsSignaling a ∨ IsSignaling b) := not_or.mpr ⟨hsig a ha, hsig b hb⟩
  constructor
  · exact (if_neg hnone).symm
  · rintro (hboth | ⟨hnan, _⟩ | ⟨hsignal, _⟩)
    · exact absurd hboth.1 ha
    · exact absurd hnan (not_or.mpr ⟨ha, hb⟩)
    · exact absurd hsignal hnone
  · exact fun h => absurd h hb
  · exact fun h => absurd h ha
  · intro _ _
    obtain ⟨hfirst, hlast⟩ := first_iff (a := a) (b := b)
    cases hf : first a b with
    | true =>
      have hle := (extended_le_iff ha hb).mpr (hfirst hf)
      cases greatest with
      | false => exact ⟨Or.inl rfl, (min_eq_left hle).symm⟩
      | true => exact ⟨Or.inr rfl, (max_eq_right hle).symm⟩
    | false =>
      have hle := (extended_le_iff hb ha).mpr (hlast hf)
      cases greatest with
      | false => exact ⟨Or.inr rfl, (min_eq_right hle).symm⟩
      | true => exact ⟨Or.inl rfl, (max_eq_left hle).symm⟩
  · intro _ _
    obtain ⟨hfirst, hlast⟩ := first_signs (a := a) (b := b)
    cases hf : first a b with
    | true =>
      cases greatest with
      | false => exact (hfirst hf).1
      | true => exact (hfirst hf).2
    | false =>
      cases greatest with
      | false => exact (hlast hf).1
      | true => exact (hlast hf).2

/-- `min_sf` and `max_sf` give the smaller and the greater of two numbers. -/
theorem extrema_correct (a b : F.Word) (fflags : BitVec 32) (minmaxType : MinMaxType) :
    IsExtremum false minmaxType a b fflags (minSf a b fflags minmaxType) ∧
      IsExtremum true minmaxType a b fflags (maxSf a b fflags minmaxType) := by
  by_cases hnan : IsNan a ∨ IsNan b
  · have hcond : isnanSf a = true ∨ isnanSf b = true := by rwa [isnanSf_iff, isnanSf_iff]
    unfold minSf maxSf
    rw [if_pos hcond, if_pos hcond]
    exact ⟨minMaxNanSf_isExtremum false minmaxType hnan, minMaxNanSf_isExtremum true minmaxType hnan⟩
  · obtain ⟨ha, hb⟩ := not_or.mp hnan
    obtain ⟨hmin, hmax⟩ := minSf_number fflags minmaxType ha hb
    have hleast := number_isExtremum fflags false minmaxType ha hb
    have hgreatest := number_isExtremum fflags true minmaxType ha hb
    rw [hmin, hmax]
    refine ⟨?_, ?_⟩
    · cases hf : first a b <;> rw [hf] at hleast <;> exact hleast
    · cases hf : first a b <;> rw [hf] at hgreatest <;> exact hgreatest

/-! ## The kind of a number -/

/-- The kinds in the order of their bits in the result of `fclass_sf`. -/
inductive Kind
  | negativeInfinity
  | negativeNormal
  | negativeSubnormal
  | negativeZero
  | positiveZero
  | positiveSubnormal
  | positiveNormal
  | positiveInfinity
  | signalingNan
  | quietNan
  deriving DecidableEq, Repr

/-- What a number of a kind is. -/
def Kind.Holds (a : F.Word) : Kind → Prop
  | .negativeInfinity => IsInfinite a ∧ signOf a = true
  | .negativeNormal => IsFinite a ∧ value a ≤ -2 ^ F.emin
  | .negativeSubnormal => IsFinite a ∧ -2 ^ F.emin < value a ∧ value a < 0
  | .negativeZero => IsZero a ∧ signOf a = true
  | .positiveZero => IsZero a ∧ signOf a = false
  | .positiveSubnormal => IsFinite a ∧ 0 < value a ∧ value a < 2 ^ F.emin
  | .positiveNormal => IsFinite a ∧ 2 ^ F.emin ≤ value a
  | .positiveInfinity => IsInfinite a ∧ signOf a = false
  | .signalingNan => IsSignaling a
  | .quietNan => IsNan a ∧ ¬ IsSignaling a

/-- `FCLASS_NINF` to `FCLASS_QNAN`. -/
def Kind.bit : Kind → BitVec 32
  | .negativeInfinity => 1 <<< 0
  | .negativeNormal => 1 <<< 1
  | .negativeSubnormal => 1 <<< 2
  | .negativeZero => 1 <<< 3
  | .positiveZero => 1 <<< 4
  | .positiveSubnormal => 1 <<< 5
  | .positiveNormal => 1 <<< 6
  | .positiveInfinity => 1 <<< 7
  | .signalingNan => 1 <<< 8
  | .quietNan => 1 <<< 9

theorem quietBit_iff (a : F.Word) :
    mantOf a &&& F.qnanMask ≠ 0 ↔ ¬ (mantOf a).toNat < 2 ^ (F.mantSize - 1) := by
  have hsize := F.fSize_eq
  have hpos := Nat.two_pow_pos (F.mantSize - 1)
  have hmant := mantOf_lt a
  rw [mant_half] at hmant
  have hbit : (mantOf a).toNat.testBit (F.mantSize - 1) = false ↔
      (mantOf a).toNat < 2 ^ (F.mantSize - 1) := by
    rw [Nat.testBit_eq_decide_div_mod_eq, decide_eq_false_iff_not]
    by_cases hlow : (mantOf a).toNat < 2 ^ (F.mantSize - 1)
    · rw [Nat.div_eq_of_lt hlow]
      exact iff_of_true (by decide) hlow
    · rw [Nat.div_eq_of_lt_le (show 1 * 2 ^ (F.mantSize - 1) ≤ _ by omega) (by omega)]
      exact iff_of_false (by decide) hlow
  rw [not_iff_not, ← hbit, ← toNat_eq_zero_iff, BitVec.toNat_and, qnanMask, bit_toNat (by omega),
    Nat.and_two_pow, Nat.mul_eq_zero, or_iff_left hpos.ne', Bool.toNat_eq_zero]

/-- `fclass_sf` gives the bit of the one kind that the number is of. -/
theorem fclassSf_iff (a : F.Word) (k : Kind) : fclassSf a = k.bit ↔ k.Holds a := by
  have hnormal := normal_iff a
  have hzero := magnitude_eq_zero_iff (a := a)
  have hnonneg := magnitude_nonneg a
  have hemin : (0 : ℝ) < 2 ^ F.emin := two_zpow_pos _
  have hmask := F.expMask_ge
  unfold fclassSf
  by_cases hexp : expOf a = F.expMask
  · have hfinite : ¬ IsFinite a := not_not.mpr hexp
    have hnonzero : ¬ IsZero a := fun h => hfinite (finite_zero h)
    by_cases hmant : mantOf a = 0
    · have hinf : IsInfinite a := ⟨hexp, hmant⟩
      have hnan : ¬ IsNan a := hinf.not_nan
      have hsig : ¬ IsSignaling a := fun h => hnan h.1
      cases hsign : signOf a <;> cases k <;>
        simp [Kind.Holds, Kind.bit, hexp, hmant, hsign, hinf, hnan, hsig, hfinite, hnonzero]
    · have hinf : ¬ IsInfinite a := fun h => hmant h.2
      have hnan : IsNan a := ⟨hexp, hmant⟩
      by_cases hsig : IsSignaling a
      · have hquiet : ¬ (mantOf a &&& F.qnanMask ≠ 0) := fun h => (quietBit_iff a).mp h hsig.2
        rw [if_pos hexp, if_pos hmant, if_neg hquiet]
        cases k <;> simp [Kind.Holds, Kind.bit, hinf, hnan, hsig, hfinite, hnonzero]
      · have hquiet : mantOf a &&& F.qnanMask ≠ 0 :=
          (quietBit_iff a).mpr fun h => hsig ⟨hnan, h⟩
        rw [if_pos hexp, if_pos hmant, if_pos hquiet]
        cases k <;> simp [Kind.Holds, Kind.bit, hinf, hnan, hsig, hfinite, hnonzero]
  · have hfinite : IsFinite a := hexp
    have hinf : ¬ IsInfinite a := fun h => hexp h.1
    have hnan : ¬ IsNan a := hfinite.not_nan
    have hsig : ¬ IsSignaling a := fun h => hnan h.1
    rw [if_neg hexp]
    by_cases hsub : expOf a = 0
    · have hlt : magnitude a < 2 ^ F.emin := not_le.mp fun h => hnormal.mp h hsub
      rw [if_pos hsub]
      by_cases hmant : mantOf a = 0
      · have hz : IsZero a := ⟨hsub, hmant⟩
        have hmag := hzero.mpr hz
        rw [if_pos hmant]
        cases hsign : signOf a <;> cases k <;>
          simp [Kind.Holds, Kind.bit, value, hsign, hinf, hnan, hsig, hfinite, hz, hmag, hemin]
      · have hz : ¬ IsZero a := fun h => hmant h.2
        have hpos : 0 < magnitude a := hnonneg.lt_of_ne' (hzero.not.mpr hz)
        rw [if_neg hmant]
        cases hsign : signOf a <;> cases k <;>
          simp [Kind.Holds, Kind.bit, value, hsign, hinf, hnan, hsig, hfinite, hz, hpos, hlt,
            hnonneg.not_gt] <;>
          linarith
    · have hge := hnormal.mpr hsub
      have hz : ¬ IsZero a := fun h => hsub h.1
      rw [if_neg hsub]
      cases hsign : signOf a <;> cases k <;>
        simp [Kind.Holds, Kind.bit, value, hsign, hinf, hnan, hsig, hfinite, hz, hge,
          hnonneg.not_gt] <;>
        linarith

end SoftFloat
end Riscbox

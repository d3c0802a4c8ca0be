import Mathlib

/-!
# Rounding to a grid

A rounded value depends only on how the exact one compares with the multiples of half the
spacing.  `Alike g` relates the values that no multiple of `g` tells apart, so that an
operation may hand any value alike to the exact one to its rounding.
-/

namespace Riscbox
namespace Rounding

variable {K : Type*} [Field K] [LinearOrder K]

/-! ## Values that a grid does not tell apart -/

/-- No multiple of `g` lies between `x` and `y`, nor on just one of them. -/
def Alike (g x y : K) : Prop :=
  ∀ k : ℤ, ((k : K) * g ≤ x ↔ (k : K) * g ≤ y) ∧ (x ≤ (k : K) * g ↔ y ≤ (k : K) * g)

namespace Alike

variable {g x y z c : K}

theorem refl (g x : K) : Alike g x x := fun _ => ⟨Iff.rfl, Iff.rfl⟩

theorem symm (h : Alike g x y) : Alike g y x := fun k => ⟨(h k).1.symm, (h k).2.symm⟩

theorem trans (h : Alike g x y) (h' : Alike g y z) : Alike g x z := fun k =>
  ⟨(h k).1.trans (h' k).1, (h k).2.trans (h' k).2⟩

theorem of_eq (h : x = y) : Alike g x y := h ▸ refl g x

/-- A coarser grid tells no more values apart. -/
theorem coarsen (h : Alike g x y) (n : ℤ) : Alike (n * g) x y := by
  intro k
  have hk := h (k * n)
  have hmul : ((k * n : ℤ) : K) * g = k * (n * g) := by
    push_cast
    ring
  rwa [hmul] at hk

theorem le_iff (h : Alike g x y) {b : K} (k : ℤ) (hb : b = k * g) : b ≤ x ↔ b ≤ y :=
  hb ▸ (h k).1

theorem ge_iff (h : Alike g x y) {b : K} (k : ℤ) (hb : b = k * g) : x ≤ b ↔ y ≤ b :=
  hb ▸ (h k).2

theorem lt_iff (h : Alike g x y) {b : K} (k : ℤ) (hb : b = k * g) : x < b ↔ y < b := by
  rw [← not_le, ← not_le, h.le_iff k hb]

/-- Being a multiple of the grid is the same for both values. -/
theorem eq_iff (h : Alike g x y) {b : K} (k : ℤ) (hb : b = k * g) : x = b ↔ y = b := by
  rw [le_antisymm_iff, le_antisymm_iff, h.ge_iff k hb, h.le_iff k hb]

theorem pos (h : Alike g x y) (hx : 0 < x) : 0 < y := by
  by_contra hy
  have hle := (h.ge_iff (b := 0) 0 (by simp)).mpr (not_lt.mp hy)
  exact absurd hx (not_lt.mpr hle)

variable [IsStrictOrderedRing K]

theorem scale (hc : 0 < c) (h : Alike g x y) : Alike (g * c) (x * c) (y * c) := by
  intro k
  have hk := h k
  rw [← mul_assoc, mul_le_mul_iff_left₀ hc, mul_le_mul_iff_left₀ hc, mul_le_mul_iff_left₀ hc,
    mul_le_mul_iff_left₀ hc]
  exact hk

theorem neg (h : Alike g x y) : Alike g (-x) (-y) := by
  intro k
  have hk := h (-k)
  have hmul : ((-k : ℤ) : K) * g = -(k * g) := by
    push_cast
    ring
  rw [hmul] at hk
  constructor
  · rw [le_neg, le_neg (b := y)]
    exact hk.2
  · rw [neg_le, neg_le (a := y)]
    exact hk.1

/-- Both values may be moved by a multiple of the grid. -/
theorem shift (h : Alike g x y) {b : K} (j : ℤ) (hb : b = j * g) :
    Alike g (b + x) (b + y) := by
  intro k
  have hk := h (k - j)
  have hmul : ((k - j : ℤ) : K) * g = k * g - b := by
    rw [hb]
    push_cast
    ring
  rw [hmul] at hk
  constructor
  · rw [← sub_le_iff_le_add', ← sub_le_iff_le_add']
    exact hk.1
  · rw [← le_sub_iff_add_le', ← le_sub_iff_add_le']
    exact hk.2

/-- Two values strictly between the same neighbours are alike. -/
theorem of_between (hg : 0 < g) {b : K} (j : ℤ) (hb : b = j * g) (hx : b < x) (hx' : x < b + g)
    (hy : b < y) (hy' : y < b + g) : Alike g x y := by
  have hcell : ∀ v : K, b < v → v < b + g → ∀ k : ℤ,
      ((k : K) * g ≤ v ↔ k ≤ j) ∧ (v ≤ (k : K) * g ↔ j < k) := by
    intro v hv hv' k
    have hlow : k ≤ j → (k : K) * g ≤ b := by
      intro hk
      rw [hb]
      exact mul_le_mul_of_nonneg_right (by exact_mod_cast hk) hg.le
    have hhigh : j < k → b + g ≤ (k : K) * g := by
      intro hk
      have hsucc : ((j + 1 : ℤ) : K) ≤ k := by exact_mod_cast hk
      calc b + g = ((j + 1 : ℤ) : K) * g := by
            rw [hb]
            push_cast
            ring
        _ ≤ k * g := mul_le_mul_of_nonneg_right hsucc hg.le
    constructor
    · constructor
      · intro h
        by_contra hk
        exact absurd (hhigh (not_le.mp hk)) (not_le.mpr (h.trans_lt hv'))
      · exact fun hk => (hlow hk).trans hv.le
    · constructor
      · intro h
        by_contra hk
        exact absurd (hlow (not_lt.mp hk)) (not_le.mpr (hv.trans_le h))
      · exact fun hk => hv'.le.trans (hhigh hk)
  intro k
  rw [(hcell x hx hx' k).1, (hcell x hx hx' k).2, (hcell y hy hy' k).1, (hcell y hy hy' k).2]
  exact ⟨Iff.rfl, Iff.rfl⟩

end Alike

/-! ## Rounding to an integer -/

/-- Where a magnitude between two integers goes. -/
inductive Direction
  | nearestEven
  | nearestAway
  | towardZero
  | awayFromZero
  deriving DecidableEq, Repr

variable [FloorRing K]

theorem int_multiple (k : ℤ) : (k : K) = ((2 * k : ℤ) : K) * (1 / 2) := by
  push_cast
  ring

theorem floor_alike {x y : K} (h : Alike (1 / 2) x y) : ⌊x⌋ = ⌊y⌋ := by
  rw [Int.floor_eq_iff]
  constructor
  · rw [h.le_iff _ (int_multiple _)]
    exact Int.floor_le y
  · have hsucc : ((⌊y⌋ : ℤ) : K) + 1 = ((2 * (⌊y⌋ + 1) : ℤ) : K) * (1 / 2) := by
      push_cast
      ring
    rw [h.lt_iff _ hsucc]
    exact Int.lt_floor_add_one y

variable [IsStrictOrderedRing K]

/-- A magnitude as an integer.  A tie goes to the even neighbour or to the greater one. -/
def roundInt (d : Direction) (x : K) : ℤ :=
  match d with
  | .towardZero => ⌊x⌋
  | .awayFromZero => ⌈x⌉
  | .nearestAway => ⌊x + 1 / 2⌋
  | .nearestEven =>
    if x + 1 / 2 = (⌊x + 1 / 2⌋ : ℤ) ∧ ¬ Even ⌊x + 1 / 2⌋ then ⌊x + 1 / 2⌋ - 1
    else ⌊x + 1 / 2⌋

section

variable {x y : K} {d : Direction}

theorem ceil_alike (h : Alike (1 / 2) x y) : ⌈x⌉ = ⌈y⌉ := by
  have hneg := floor_alike h.neg
  rw [Int.floor_neg, Int.floor_neg] at hneg
  exact neg_inj.mp hneg

theorem nearest_alike (h : Alike (1 / 2) x y) : Alike (1 / 2) (x + 1 / 2) (y + 1 / 2) := by
  have hshift := h.shift (b := 1 / 2) 1 (by norm_num)
  rwa [add_comm _ x, add_comm _ y] at hshift

/-- The rounded integer depends only on the comparisons with the half integers. -/
theorem roundInt_alike (h : Alike (1 / 2) x y) : roundInt d x = roundInt d y := by
  cases d with
  | towardZero => exact floor_alike h
  | awayFromZero => exact ceil_alike h
  | nearestAway => exact floor_alike (nearest_alike h)
  | nearestEven =>
    have hfloor := floor_alike (nearest_alike h)
    have htie := (nearest_alike h).eq_iff _ (int_multiple ⌊y + 1 / 2⌋)
    simp only [roundInt, hfloor, htie]

@[simp] theorem roundInt_intCast (n : ℤ) : roundInt d (n : K) = n := by
  have hfloor : ⌊(n : K) + 1 / 2⌋ = n := by
    rw [Int.floor_eq_iff]
    constructor <;> linarith
  cases d with
  | towardZero => exact Int.floor_intCast n
  | awayFromZero => exact Int.ceil_intCast n
  | nearestAway => exact hfloor
  | nearestEven =>
    have htie : ¬ ((n : K) + 1 / 2 = n) := by linarith
    simp only [roundInt, hfloor, htie, false_and, if_false]

@[simp] theorem roundInt_zero : roundInt d (0 : K) = 0 := by
  have h := roundInt_intCast (K := K) (d := d) 0
  rwa [Int.cast_zero] at h

/-- The result is one of the neighbours. -/
theorem roundInt_cases (d : Direction) (x : K) : roundInt d x = ⌊x⌋ ∨ roundInt d x = ⌈x⌉ := by
  have hnearest : ⌊x + 1 / 2⌋ = ⌊x⌋ ∨ ⌊x + 1 / 2⌋ = ⌈x⌉ := by
    by_cases hhalf : x + 1 / 2 < ⌊x⌋ + 1
    · left
      rw [Int.floor_eq_iff]
      have hfloor := Int.floor_le x
      constructor <;> linarith
    · right
      have hlt := Int.lt_floor_add_one x
      have hceil : ⌈x⌉ = ⌊x⌋ + 1 := by
        rw [Int.ceil_eq_iff]
        push_cast
        constructor <;> linarith
      rw [hceil, Int.floor_eq_iff]
      push_cast
      constructor <;> linarith
  cases d with
  | towardZero => exact Or.inl rfl
  | awayFromZero => exact Or.inr rfl
  | nearestAway => exact hnearest
  | nearestEven =>
    simp only [roundInt]
    by_cases htie : x + 1 / 2 = (⌊x + 1 / 2⌋ : ℤ) ∧ ¬ Even ⌊x + 1 / 2⌋
    · rw [if_pos htie]
      left
      symm
      rw [Int.floor_eq_iff]
      push_cast
      constructor <;> linarith [htie.1]
    · rw [if_neg htie]
      exact hnearest

theorem roundInt_nonneg (hx : 0 ≤ x) : 0 ≤ roundInt d x := by
  obtain h | h := roundInt_cases d x
  · rw [h]
    exact Int.floor_nonneg.mpr hx
  · rw [h]
    exact Int.ceil_nonneg hx

theorem roundInt_le {n : ℤ} (hx : x ≤ n) : roundInt d x ≤ n := by
  obtain h | h := roundInt_cases d x
  · rw [h]
    exact Int.floor_le_iff.mpr (by linarith)
  · rw [h]
    exact Int.ceil_le.mpr hx

theorem le_roundInt {n : ℤ} (hx : n ≤ x) : n ≤ roundInt d x := by
  obtain h | h := roundInt_cases d x
  · rw [h]
    exact Int.le_floor.mpr hx
  · rw [h]
    exact Int.le_ceil_iff.mpr (by linarith)

/-- The value is unchanged exactly where it is an integer. -/
theorem roundInt_eq_self : (roundInt d x : K) = x ↔ ∃ n : ℤ, x = n := by
  constructor
  · exact fun h => ⟨_, h.symm⟩
  · rintro ⟨n, rfl⟩
    rw [roundInt_intCast]

/-- Rounding to nearest in either way of breaking ties. -/
def Direction.nearest : Direction → Prop
  | .nearestEven | .nearestAway => True
  | .towardZero | .awayFromZero => False

theorem floor_half_error (x : K) : |x - ⌊x + 1 / 2⌋| ≤ 1 / 2 := by
  have hle := Int.floor_le (x + 1 / 2)
  have hlt := Int.lt_floor_add_one (x + 1 / 2)
  rw [abs_le]
  constructor <;> linarith

theorem roundInt_error (hd : d.nearest) : |x - roundInt d x| ≤ 1 / 2 := by
  cases d with
  | towardZero => exact hd.elim
  | awayFromZero => exact hd.elim
  | nearestAway => exact floor_half_error x
  | nearestEven =>
    simp only [roundInt]
    split
    case isTrue htie =>
      push_cast
      rw [abs_le]
      constructor <;> linarith [htie.1]
    case isFalse => exact floor_half_error x

/-- No integer is nearer. -/
theorem roundInt_nearest (hd : d.nearest) (n : ℤ) : |x - roundInt d x| ≤ |x - n| := by
  have herror := roundInt_error (x := x) hd
  by_cases hn : roundInt d x = n
  · rw [hn]
  · have hapart : (1 : K) ≤ |(n : K) - roundInt d x| := by
      have hone : (1 : ℤ) ≤ |n - roundInt d x| :=
        Int.one_le_abs (sub_ne_zero.mpr (Ne.symm hn))
      exact_mod_cast hone
    have htriangle : |(n : K) - roundInt d x| ≤ |x - roundInt d x| + |x - n| := by
      have hsplit : (n : K) - roundInt d x = (x - roundInt d x) - (x - n) := by ring
      rw [hsplit]
      exact abs_sub _ _
    linarith

/-- A tie goes to the even integer. -/
theorem roundInt_even (htie : |x - roundInt .nearestEven x| = 1 / 2) :
    Even (roundInt .nearestEven x) := by
  simp only [roundInt] at htie ⊢
  by_cases h : x + 1 / 2 = (⌊x + 1 / 2⌋ : ℤ) ∧ ¬ Even ⌊x + 1 / 2⌋
  · rw [if_pos h]
    exact (Int.not_even_iff_odd.mp h.2).sub_odd odd_one
  · rw [if_neg h] at htie ⊢
    by_contra hodd
    have hle := Int.floor_le (x + 1 / 2)
    have hlt := Int.lt_floor_add_one (x + 1 / 2)
    refine h ⟨?_, hodd⟩
    obtain habs | habs := abs_choice (x - (⌊x + 1 / 2⌋ : ℤ)) <;> linarith

end

/-! ## Rounding a fraction -/

/-- What is added below the last kept digit before the rest is cut off. -/
def Direction.addend (d : Direction) (q : ℕ) : ℕ :=
  match d with
  | .towardZero => 0
  | .awayFromZero => q - 1
  | .nearestAway | .nearestEven => q / 2

/-- A fraction with an even denominator as an integer, in natural numbers. -/
def roundNat (d : Direction) (n q : ℕ) : ℕ :=
  if d = .nearestEven ∧ n % q = q / 2 then (n + d.addend q) / q / 2 * 2
  else (n + d.addend q) / q

section

variable {n q : ℕ}

theorem floor_div (hq : 0 < q) : ⌊(n : K) / q⌋ = (n / q : ℕ) := by
  have hpos : (0 : K) < q := by exact_mod_cast hq
  have hdiv := Nat.div_add_mod n q
  have hmod := Nat.mod_lt n hq
  rw [Int.floor_eq_iff, le_div_iff₀ hpos, div_lt_iff₀ hpos]
  constructor
  · exact_mod_cast (by rw [Nat.mul_comm]; omega : n / q * q ≤ n)
  · exact_mod_cast (by rw [Nat.add_mul, Nat.mul_comm]; omega : n < (n / q + 1) * q)

theorem ceil_div (hq : 0 < q) : ⌈(n : K) / q⌉ = ((n + (q - 1)) / q : ℕ) := by
  have hpos : (0 : K) < q := by exact_mod_cast hq
  have hdiv := Nat.div_add_mod (n + (q - 1)) q
  have hmod := Nat.mod_lt (n + (q - 1)) hq
  rw [Int.ceil_eq_iff, lt_div_iff₀ hpos, div_le_iff₀ hpos, Int.cast_natCast, sub_mul, one_mul,
    sub_lt_iff_lt_add]
  constructor
  · exact_mod_cast (by rw [Nat.mul_comm]; omega : (n + (q - 1)) / q * q < n + q)
  · exact_mod_cast (by rw [Nat.mul_comm]; omega : n ≤ (n + (q - 1)) / q * q)

omit [IsStrictOrderedRing K] in
theorem half_div (hq : 0 < q) (heven : Even q) :
    (n : K) / q + 1 / 2 = ((n + q / 2 : ℕ) : K) / q := by
  obtain ⟨h, rfl⟩ := heven
  have hhalf : (h + h) / 2 = h := by omega
  have hpos : (h : K) ≠ 0 := by
    have : h ≠ 0 := by omega
    exact_mod_cast this
  rw [hhalf]
  push_cast
  field_simp
  ring

theorem half_mod_eq_zero (hq : 0 < q) (heven : Even q) :
    (n + q / 2) % q = 0 ↔ n % q = q / 2 := by
  have hmod := Nat.mod_lt n hq
  have hhalf := Nat.div_two_mul_two_of_even heven
  rw [← Nat.mod_add_mod]
  by_cases hcarry : n % q + q / 2 < q
  · rw [Nat.mod_eq_of_lt hcarry]
    omega
  · rw [Nat.mod_eq_sub_mod (not_lt.mp hcarry), Nat.mod_eq_of_lt (by omega)]
    omega

omit [IsStrictOrderedRing K] in
theorem tie_iff (hq : 0 < q) (heven : Even q) :
    ((n + q / 2 : ℕ) : K) / q = ((n + q / 2) / q : ℕ) ↔ n % q = q / 2 := by
  have hpos : (q : K) ≠ 0 := by exact_mod_cast hq.ne'
  have hdiv := Nat.div_add_mod' (n + q / 2) q
  rw [← half_mod_eq_zero hq heven, div_eq_iff hpos]
  constructor
  · intro h
    have hnat : n + q / 2 = (n + q / 2) / q * q := by exact_mod_cast h
    omega
  · intro h
    have hnat : n + q / 2 = (n + q / 2) / q * q := by omega
    exact_mod_cast hnat

/-- The rounding in natural numbers is the rounding of the fraction. -/
theorem roundInt_div (hq : 0 < q) (heven : Even q) (d : Direction) :
    roundInt d ((n : K) / q) = roundNat d n q := by
  cases d with
  | towardZero =>
    rw [roundNat, if_neg (fun h => absurd h.1 (by decide))]
    exact floor_div hq
  | awayFromZero =>
    rw [roundNat, if_neg (fun h => absurd h.1 (by decide))]
    exact ceil_div hq
  | nearestAway =>
    rw [roundNat, if_neg (fun h => absurd h.1 (by decide)), roundInt, half_div hq heven]
    exact floor_div hq
  | nearestEven =>
    rw [roundInt, half_div hq heven, floor_div hq, Int.cast_natCast]
    simp only [tie_iff hq heven, Int.even_coe_nat, roundNat, true_and, Direction.addend]
    by_cases htie : n % q = q / 2
    · rw [if_pos htie]
      by_cases hparity : Even ((n + q / 2) / q)
      · rw [if_neg (fun h => h.2 hparity), Nat.div_two_mul_two_of_even hparity]
      · rw [if_pos ⟨htie, hparity⟩]
        have hodd := Nat.odd_iff.mp (Nat.not_even_iff_odd.mp hparity)
        omega
    · rw [if_neg htie, if_neg (fun h => htie h.1)]

end

/-! ## A sticky last bit -/

/-- An integer part whose last bit is set where something has been cut off. -/
def sticky (n : ℕ) (inexact : Bool) : ℕ := if inexact then n ||| 1 else n

theorem or_one (n : ℕ) : n ||| 1 = 2 * (n / 2) + 1 := by
  have hdiv : (n ||| 1) / 2 = n / 2 := by
    rw [Nat.or_div_two]
    exact Nat.or_zero _
  have hmod : (n ||| 1) % 2 = 1 := Nat.or_mod_two_eq_one.mpr (Or.inr rfl)
  omega

theorem le_sticky (n : ℕ) (inexact : Bool) : n ≤ sticky n inexact := by
  unfold sticky
  split
  · rw [or_one]
    omega
  · exact le_refl n

/-- The sticky integer part stands for the value on every grid of even spacing. -/
theorem sticky_alike {n : ℕ} {inexact : Bool} {y : K} (hlow : n ≤ y) (hhigh : y < n + 1)
    (hexact : inexact = false ↔ y = n) : Alike 2 (sticky n inexact : K) y := by
  cases inexact with
  | false => exact Alike.of_eq (hexact.mp rfl).symm
  | true =>
    have hne : y ≠ n := fun h => absurd (hexact.mpr h) (by decide)
    have hlt : (n : K) < y := lt_of_le_of_ne hlow hne.symm
    have hhalf := Nat.div_add_mod n 2
    have hmod : n % 2 < 2 := Nat.mod_lt _ two_pos
    have hbelow : ((2 * (n / 2) : ℕ) : K) ≤ n := by exact_mod_cast (by omega : 2 * (n / 2) ≤ n)
    have habove : (n : K) + 1 ≤ ((2 * (n / 2) : ℕ) : K) + 2 := by
      exact_mod_cast (by omega : n + 1 ≤ 2 * (n / 2) + 2)
    apply Alike.of_between two_pos ((n / 2 : ℕ) : ℤ) (b := ((2 * (n / 2) : ℕ) : K))
    · rw [Int.cast_natCast, Nat.cast_mul, Nat.cast_ofNat, mul_comm]
    · rw [sticky, if_pos rfl, or_one]
      push_cast
      linarith
    · rw [sticky, if_pos rfl, or_one]
      push_cast
      linarith
    · linarith
    · linarith

/-- A quotient with a sticky last bit. -/
theorem sticky_div_alike {n q : ℕ} (hq : 0 < q) :
    Alike 2 (sticky (n / q) (n % q != 0) : K) (n / q) := by
  have hpos : (0 : K) < q := by exact_mod_cast hq
  have hdiv := Nat.div_add_mod n q
  have hmod : n % q < q := Nat.mod_lt _ hq
  have hcast : (n : K) = q * (n / q : ℕ) + (n % q : ℕ) := by exact_mod_cast hdiv.symm
  have hrest : ((n % q : ℕ) : K) < q := by exact_mod_cast hmod
  have hrest0 : (0 : K) ≤ (n % q : ℕ) := Nat.cast_nonneg _
  apply sticky_alike
  · rw [le_div_iff₀ hpos]
    linarith
  · rw [div_lt_iff₀ hpos]
    linarith
  · rw [bne_eq_false_iff_eq, div_eq_iff hpos.ne']
    constructor
    · intro h
      rw [h, Nat.cast_zero] at hcast
      linarith
    · intro h
      have hzero : ((n % q : ℕ) : K) = 0 := by linarith
      exact_mod_cast hzero

/-- A right shift with a sticky last bit. -/
theorem sticky_shift_alike (n d : ℕ) :
    Alike 2 (sticky (n / 2 ^ d) (n % 2 ^ d != 0) : K) (n / 2 ^ d) := by
  have h := sticky_div_alike (K := K) (n := n) (Nat.two_pow_pos d)
  rwa [Nat.cast_pow, Nat.cast_ofNat] at h

end Rounding
end Riscbox

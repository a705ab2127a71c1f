import Mathlib

namespace PuppyTalk

/-- A decimal number that is not negative, `coefficient / 10 ^ scale`. -/
structure Decimal where
  coefficient : Nat
  scale : Nat
  deriving DecidableEq, Repr

namespace Decimal

def ofNat (n : Nat) : Decimal := ⟨n, 0⟩

def coefficientAt (x : Decimal) (scale : Nat) : Nat := x.coefficient * 10 ^ (scale - x.scale)

def add (x y : Decimal) : Decimal :=
  ⟨x.coefficientAt (max x.scale y.scale) + y.coefficientAt (max x.scale y.scale), max x.scale y.scale⟩

def mul (x y : Decimal) : Decimal := ⟨x.coefficient * y.coefficient, x.scale + y.scale⟩

def mod (x y : Decimal) : Decimal :=
  ⟨x.coefficientAt (max x.scale y.scale) % y.coefficientAt (max x.scale y.scale), max x.scale y.scale⟩

def trunc (x : Decimal) : Decimal := ⟨x.coefficient / 10 ^ x.scale, 0⟩

/-- The nearest whole number to `a / b`, and the larger one if two are. -/
def roundDiv (a b : Nat) : Nat := (2 * a + b) / (2 * b)

def toInt (x : Decimal) : Nat := roundDiv x.coefficient (10 ^ x.scale)

def aligned (x : Decimal) : Nat := x.coefficient * 10 ^ ((4 - x.scale % 4) % 4)

def weight (x : Decimal) : Int :=
  if x.coefficient = 0 then 0 else (Nat.log 10000 x.aligned : Int) - ((x.scale + 3) / 4 : Nat)

def leadingDigit (x : Decimal) : Nat := x.aligned / 10000 ^ Nat.log 10000 x.aligned

def quotientWeight (x y : Decimal) : Int :=
  x.weight - y.weight - if x.leadingDigit ≤ y.leadingDigit then 1 else 0

/-- How many decimal places a quotient gets: 16 significant digits, and no fewer places than either
number has. -/
def divScale (x y : Decimal) : Nat :=
  max (max x.scale y.scale) (16 - 4 * quotientWeight x y).toNat

def div (x y : Decimal) : Decimal :=
  ⟨roundDiv (x.coefficient * 10 ^ (y.scale + divScale x y)) (y.coefficient * 10 ^ x.scale),
    divScale x y⟩

def whole (n scale : Nat) : Decimal := ⟨n * 10 ^ scale, scale⟩

theorem whole_zero (n : Nat) : whole n 0 = ofNat n := by
  simp [whole, ofNat]

theorem mul_ofNat (m n : Nat) : (ofNat m).mul (ofNat n) = ofNat (m * n) := rfl

theorem add_ofNat (m n : Nat) : (ofNat m).add (ofNat n) = ofNat (m + n) := by
  simp [add, ofNat, coefficientAt]

theorem mod_whole (m n s t : Nat) : (whole m s).mod (whole n t) = whole (m % n) (max s t) := by
  have hat (k u : Nat) (hu : u ≤ max s t) : (whole k u).coefficientAt (max s t) = k * 10 ^ max s t := by
    rw [coefficientAt, whole, Nat.mul_assoc, ← Nat.pow_add, Nat.add_sub_cancel' hu]
  simp only [mod, whole] at hat ⊢
  rw [hat m s (le_max_left _ _), hat n t (le_max_right _ _), Nat.mul_mod_mul_right]

theorem toInt_whole (n s : Nat) : (whole n s).toInt = n := by
  have hpos : 0 < 10 ^ s := Nat.pow_pos (by decide)
  rw [toInt, roundDiv, whole]
  refine Nat.div_eq_of_lt_le ?_ ?_
  · nlinarith
  · nlinarith

theorem trunc_mk (c s : Nat) : trunc ⟨c, s⟩ = ofNat (c / 10 ^ s) := rfl

theorem roundDiv_div (x : Nat) {y r : Nat} (hy : 0 < y) (hr : y < 2 * 10 ^ r) :
    roundDiv (x * 10 ^ r) y / 10 ^ r = x / y := by
  have hpos : 0 < 10 ^ r := Nat.pow_pos (by decide)
  rw [roundDiv, Nat.div_div_eq_div_mul]
  have hmod := Nat.div_add_mod x y
  have hlt := Nat.mod_lt x hy
  generalize x / y = a at *
  generalize x % y = b at *
  generalize 10 ^ r = p at *
  subst hmod
  refine Nat.div_eq_of_lt_le ?_ ?_
  · nlinarith
  · nlinarith

theorem roundDiv_mul_right (a b : Nat) {c : Nat} (hc : 0 < c) :
    roundDiv (a * c) (b * c) = roundDiv a b := by
  rw [roundDiv, roundDiv, ← Nat.mul_assoc, ← Nat.mul_assoc, ← Nat.add_mul, Nat.mul_div_mul_right _ _ hc]

theorem div_whole (x s y : Nat) : (whole x s).div (ofNat y) =
    ⟨roundDiv (x * 10 ^ divScale (whole x s) (ofNat y)) y, divScale (whole x s) (ofNat y)⟩ := by
  have hcoefficient (r : Nat) : roundDiv (x * 10 ^ s * 10 ^ (0 + r)) (y * 10 ^ s) =
      roundDiv (x * 10 ^ r) y := by
    rw [Nat.zero_add, Nat.mul_right_comm, roundDiv_mul_right _ _ (Nat.pow_pos (by decide))]
  rw [div]
  exact congrArg (Decimal.mk · _) (hcoefficient _)

/-- Division by a whole number, cut off at the point: exact as long as the quotient gets decimal
places, and rounded to the nearest whole number if it gets none. -/
theorem trunc_div_whole (x s : Nat) {y : Nat} (hy : 0 < y) (hlt : y < 20) :
    ((whole x s).div (ofNat y)).trunc = ofNat
      (if divScale (whole x s) (ofNat y) = 0 then roundDiv x y else x / y) := by
  rw [div_whole, trunc_mk]
  by_cases hr : divScale (whole x s) (ofNat y) = 0
  · rw [if_pos hr, hr, Nat.pow_zero, Nat.mul_one, Nat.div_one]
  · have hten : 10 ^ 1 ≤ 10 ^ divScale (whole x s) (ofNat y) :=
      Nat.pow_le_pow_right (by decide) (Nat.one_le_iff_ne_zero.mpr hr)
    rw [if_neg hr, roundDiv_div x hy (by omega)]

theorem quotientWeight_ofNat (x : Nat) {y : Nat} (hy : y ≠ 0) (hlt : y < 9999) :
    4 ≤ quotientWeight (ofNat x) (ofNat y) ↔ (y + 1) * 10000 ^ 4 ≤ x := by
  have hlog : Nat.log 10000 y = 0 := Nat.log_of_lt (by omega)
  have hscale : (4 - 0 % 4) % 4 = 0 := rfl
  have hceil : (0 + 3) / 4 = 0 := rfl
  simp only [quotientWeight, weight, leadingDigit, aligned, ofNat, hscale, hceil, Nat.pow_zero,
    Nat.mul_one, hlog, hy, if_false, Nat.div_one]
  by_cases hx : x = 0
  · simp [hx]
  rw [if_neg hx]
  have hle := Nat.pow_log_le_self 10000 hx
  have hgt := Nat.lt_pow_succ_log_self (b := 10000) (by decide) x
  rcases Nat.lt_trichotomy (Nat.log 10000 x) 4 with hw | hw | hw
  · -- too few digits
    have hpow : 10000 ^ (Nat.log 10000 x + 1) ≤ 10000 ^ 4 := Nat.pow_le_pow_right (by decide) hw
    have hsmall : x < 10000 ^ 4 := hgt.trans_le hpow
    constructor
    · intro h
      split at h <;> omega
    · intro h
      omega
  · -- the leading digit decides
    rw [hw]
    have hdiv : x / 10000 ^ 4 ≤ y ↔ ¬ (y + 1) * 10000 ^ 4 ≤ x := by
      rw [← Nat.le_div_iff_mul_le (by decide)]
      omega
    split
    · rename_i hlead
      have hsmall := hdiv.mp hlead
      omega
    · rename_i hlead
      have hlarge := not_not.mp (mt hdiv.mpr hlead)
      omega
  · have hpow : 10000 ^ 5 ≤ 10000 ^ Nat.log 10000 x := Nat.pow_le_pow_right (by decide) hw
    have hlarge : 10000 ^ 5 ≤ x := hpow.trans hle
    constructor
    · intro _
      omega
    · intro _
      split <;> omega

theorem divScale_whole (x s : Nat) {y : Nat} (hy : y ≠ 0) (hlt : y < 9999) :
    divScale (whole x s) (ofNat y) = 0 ↔ s = 0 ∧ (y + 1) * 10000 ^ 4 ≤ x := by
  by_cases hs : s = 0
  · subst hs
    rw [whole_zero, ← quotientWeight_ofNat x hy hlt, divScale]
    generalize quotientWeight (ofNat x) (ofNat y) = q
    change max (max 0 0) (16 - 4 * q).toNat = 0 ↔ _
    omega
  · simp only [divScale, whole, ofNat, hs, false_and, iff_false]
    omega

end Decimal

end PuppyTalk

import Mathlib.Algebra.Order.Ring.Int

/-!
# The numbers of binary64

A finite bit pattern stands for a fraction whose denominator is a power of
two.  A conversion to integers truncates and saturates, so it keeps the
integers between its bounds.
-/

namespace Binary64

def exponent (bits : UInt64) : Nat :=
  bits.toNat / 2 ^ 52 % 2 ^ 11

def fraction (bits : UInt64) : Nat :=
  bits.toNat % 2 ^ 52

def IsNegative (bits : UInt64) : Prop :=
  2 ^ 63 ≤ bits.toNat

instance (bits : UInt64) : Decidable (IsNegative bits) :=
  inferInstanceAs (Decidable (_ ≤ _))

/-- Neither an infinity nor a NaN. -/
def IsFinite (bits : UInt64) : Prop :=
  exponent bits ≠ 2 ^ 11 - 1

instance (bits : UInt64) : Decidable (IsFinite bits) :=
  inferInstanceAs (Decidable (_ ≠ _))

def IsNan (bits : UInt64) : Prop :=
  ¬IsFinite bits ∧ fraction bits ≠ 0

instance (bits : UInt64) : Decidable (IsNan bits) :=
  inferInstanceAs (Decidable (_ ∧ _))

/-- The significand; a number with exponent zero has no hidden bit. -/
def significand (bits : UInt64) : Nat :=
  if exponent bits = 0 then fraction bits else 2 ^ 52 + fraction bits

/-- The position of the last bit of the significand, from `2 ^ (-1075)`. -/
def position (bits : UInt64) : Nat :=
  max (exponent bits) 1

def numerator (bits : UInt64) : Int :=
  let magnitude : Int := significand bits * 2 ^ (position bits - 1075)
  if IsNegative bits then -magnitude else magnitude

def denominator (bits : UInt64) : Int :=
  2 ^ (1075 - position bits)

theorem denominator_ne_zero (bits : UInt64) : denominator bits ≠ 0 := by
  apply pow_ne_zero
  decide

/-- The pattern stands for an integer. -/
def IsInteger (bits : UInt64) (number : Int) : Prop :=
  IsFinite bits ∧ numerator bits = number * denominator bits

instance (bits : UInt64) (number : Int) :
    Decidable (IsInteger bits number) :=
  inferInstanceAs (Decidable (_ ∧ _))

/-- The conversion to integers between two bounds. -/
def toInt (low high : Int) (bits : UInt64) : Int :=
  if IsNan bits then 0
  else if IsFinite bits then
    max low (min high ((numerator bits).tdiv (denominator bits)))
  else if IsNegative bits then low
  else high

theorem toInt_of_isInteger {bits : UInt64} {number : Int}
    (integer : IsInteger bits number) (low high : Int) :
    toInt low high bits = max low (min high number) := by
  obtain ⟨finite, same⟩ := integer
  have noNan : ¬IsNan bits := fun nan => nan.1 finite
  rw [toInt, if_neg noNan, if_pos finite, same,
    Int.mul_tdiv_cancel _ (denominator_ne_zero bits)]

theorem toInt_of_between {bits : UInt64} {number low high : Int}
    (integer : IsInteger bits number) (atLeast : low ≤ number)
    (atMost : number ≤ high) : toInt low high bits = number := by
  rw [toInt_of_isInteger integer, min_eq_right atMost, max_eq_right atLeast]

/-- The pattern of 2.0. -/
example : IsInteger 0x4000000000000000 2 := by decide

end Binary64

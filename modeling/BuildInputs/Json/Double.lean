namespace BuildInputs

/-!
# Finite doubles as exact numbers

A finite double is a sign, a significand and a power of two.  The significand has 53 bits,
except below the smallest normal double, where the power of two is fixed and the significand
smaller.  Every operation computes its exact result as a fraction of natural numbers and rounds
once, to the nearest double and to the even significand of two equally near ones.
-/

/-- The double `±significand · 2 ^ exponent`. -/
structure Double where
  negative : Bool
  significand : Nat
  exponent : Int
  deriving DecidableEq, Repr

namespace Double

/-- The smallest power of two of a double. -/
def leastExponent : Int := -1074

/-- The largest power of two of a double. -/
def greatestExponent : Int := 971

def zero (negative : Bool) : Double :=
  ⟨negative, 0, leastExponent⟩

/-- The nearest natural number to a fraction, and the even one of two equally near. -/
def roundFraction (numerator denominator : Nat) : Nat :=
  let quotient := numerator / denominator
  let twice := 2 * (numerator % denominator)
  if twice < denominator then quotient
  else if denominator < twice then quotient + 1
  else if quotient % 2 = 0 then quotient
  else quotient + 1

/-- The fraction `numerator / denominator · 2 ^ shift` as a numerator and a denominator. -/
def scale (numerator denominator : Nat) (shift : Int) : Nat × Nat :=
  (numerator * Nat.pow 2 shift.toNat, denominator * Nat.pow 2 (-shift).toNat)

/-- The nearest double to `±numerator / denominator · 2 ^ shift`, or nothing if that is beyond
the largest one. -/
def round (negative : Bool) (numerator denominator : Nat) (shift : Int) : Option Double :=
  if numerator = 0 then some (zero negative)
  else
    let low := max leastExponent
      ((numerator.log2 : Int) - (denominator.log2 : Int) + shift - 53)
    let first := scale numerator denominator (shift - low)
    let exponent := if first.1 / first.2 < Nat.pow 2 53 then low else low + 1
    let fraction := scale numerator denominator (shift - exponent)
    let significand := roundFraction fraction.1 fraction.2
    let rounded :=
      if significand = Nat.pow 2 53 then (Nat.pow 2 52, exponent + 1) else (significand, exponent)
    if greatestExponent < rounded.2 then none
    else some ⟨negative, rounded.1, rounded.2⟩

def ofNat (negative : Bool) (number : Nat) : Option Double :=
  round negative number 1 0

/-- The product of two doubles of any sign, with the sign of the first. -/
def scaleBy (value factor : Double) : Option Double :=
  round value.negative (value.significand * factor.significand) 1
    (value.exponent + factor.exponent)

def divideBy (value divisor : Double) : Option Double :=
  round value.negative value.significand divisor.significand
    (value.exponent - divisor.exponent)

def powerOfTen (power : Nat) : Option Double :=
  ofNat false (Nat.pow 10 power)

/-- The largest power of ten that is near a double. -/
def greatestPower : Nat := 308

/-- Divide by the largest power of ten until the power that is left has a double near it, or
nothing is left of the value. -/
def shrink (value : Double) (power : Nat) : Option Double :=
  if value.significand = 0 then some value
  else if power ≤ greatestPower then
    (powerOfTen power).bind value.divideBy
  else
    ((powerOfTen greatestPower).bind value.divideBy).bind fun value =>
      shrink value (power - greatestPower)
  termination_by power
  decreasing_by
    simp only [greatestPower] at *
    omega

/-- The double for `±significand · 10 ^ power`, found by rounding the significand and then
multiplying or dividing by a rounded power of ten.  Each step rounds, so that the last bit may
differ from that of the nearest double.  Nothing is returned beyond the largest double. -/
def ofDecimal (negative : Bool) (significand : Nat) (power : Int) : Option Double :=
  (ofNat negative significand).bind fun value =>
    if 0 ≤ power then
      if value.significand = 0 then some value
      else if power.toNat ≤ greatestPower then
        (powerOfTen power.toNat).bind value.scaleBy
      else none
    else shrink value (-power).toNat

/-- Whether two doubles are the same number.  The two zeros are. -/
def sameNumber (first second : Double) : Bool :=
  first = second || (first.significand = 0 && second.significand = 0)

end Double
end BuildInputs

import BuildInputs.Json.Double
import BuildInputs.Text.Basic

namespace BuildInputs
namespace Double

/-!
# The shortest decimal of a double

A decimal stands for a double if rounding it to the nearest double gives that double back.  The
decimals that do so fill an interval around it, which contains its ends when the significand is
even.  The shortest decimal has as few digits as any in the interval, and of those with equally
few digits it is the nearest to the double, or the even one of two equally near.

For each number of digits only two decimals come into question, the neighbours of the double
itself.  All comparisons are of natural numbers: the double and the ends of its interval are
counted in quarters of its last bit.
-/

/-- How `digits · 10 ^ power` compares with `quarters · 2 ^ exponent`. -/
def compareWith (digits : Nat) (power : Int) (quarters : Nat) (exponent : Int) : Ordering :=
  compare (digits * Nat.pow 10 power.toNat * Nat.pow 2 (-exponent).toNat)
    (quarters * Nat.pow 2 exponent.toNat * Nat.pow 10 (-power).toNat)

/-- The numbers that round to a double, counted in quarters of its last bit. -/
structure Interval where
  low : Nat
  value : Nat
  high : Nat
  exponent : Int
  /-- Whether the two ends belong to it. -/
  closed : Bool

/-- The interval around a double.  Just below a power of two the doubles lie twice as close. -/
def interval (double : Double) : Interval :=
  let quarters := 4 * double.significand
  let below :=
    if double.significand = Nat.pow 2 52 && leastExponent < double.exponent then 1 else 2
  ⟨quarters - below, quarters, quarters + 2, double.exponent - 2,
    double.significand % 2 = 0⟩

namespace Interval

/-- The power of ten of the first digit of the double. -/
def leadingPower (range : Interval) : Int :=
  let estimate := ((range.value.log2 : Int) + range.exponent) * 30103 / 100000
  if compareWith 1 (estimate + 1) range.value range.exponent ≠ .gt then estimate + 1
  else if compareWith 1 estimate range.value range.exponent ≠ .gt then estimate
  else estimate - 1

/-- The greatest multiple of a power of ten that is not above the double. -/
def floorAt (range : Interval) (power : Int) : Nat :=
  (range.value * Nat.pow 2 range.exponent.toNat * Nat.pow 10 (-power).toNat) /
    (Nat.pow 10 power.toNat * Nat.pow 2 (-range.exponent).toNat)

/-- Whether a decimal that is not above the double lies in the interval. -/
def holdsBelow (range : Interval) (digits : Nat) (power : Int) : Bool :=
  match compareWith digits power range.low range.exponent with
  | .lt => false
  | .eq => range.closed
  | .gt => true

def holdsAbove (range : Interval) (digits : Nat) (power : Int) : Bool :=
  match compareWith digits power range.high range.exponent with
  | .lt => true
  | .eq => range.closed
  | .gt => false

/-- Which of two neighbours, `low` and `low + 1`, is nearer to the double. -/
def nearer (range : Interval) (low : Nat) (power : Int) : Nat :=
  match compareWith (2 * low + 1) power (2 * range.value) range.exponent with
  | .gt => low
  | .lt => low + 1
  | .eq => if low % 2 = 0 then low else low + 1

/-- The decimal that stands for the double on the grid of one power of ten, if there is one. -/
def onGrid (range : Interval) (power : Int) : Option Nat :=
  let low := range.floorAt power
  match range.holdsBelow low power, range.holdsAbove (low + 1) power with
  | true, true => some (range.nearer low power)
  | true, false => some low
  | false, true => some (low + 1)
  | false, false => none

/-- The decimal on the first grid that has one, from the coarsest of a number of grids. -/
def firstOnGrids (range : Interval) (power : Int) : Nat -> Nat × Int
  | 0 => (range.floorAt power, power)
  | more + 1 =>
      match range.onGrid power with
      | some digits => (digits, power)
      | none => firstOnGrids range (power - 1) more

end Interval

def dropLastZeros (digits : Text) : Text :=
  (digits.reverse.dropWhile fun digit => digit = '0').reverse

/-- The digits of the shortest decimal, and the power of ten of the first of them.  Zero has one
digit. -/
def shortest (double : Double) : Text × Int :=
  if double.significand = 0 then (['0'], 0)
  else
    let range := interval double
    let (digits, power) := range.firstOnGrids range.leadingPower 17
    let text := Text.ofNat digits
    (dropLastZeros text, power + (text.length : Int) - 1)

def zeros (count : Nat) : Text :=
  List.replicate count '0'

/-- The digits with a point after the one that counts units. -/
def plainText (digits : Text) (power : Int) : Text :=
  if power < 0 then "0.".toList ++ zeros ((-power).toNat - 1) ++ digits
  else
    let whole := power.toNat + 1
    if digits.length ≤ whole then digits ++ zeros (whole - digits.length) ++ ".0".toList
    else digits.take whole ++ '.' :: digits.drop whole

def scientificText (digits : Text) (power : Int) : Text :=
  let mantissa :=
    match digits with
    | first :: second :: rest => first :: '.' :: second :: rest
    | short => short
  let sign := if power < 0 then '-' else '+'
  mantissa ++ 'e' :: sign :: Text.ofNat power.natAbs

/-- The written form of a double: its shortest decimal, in plain notation if the first digit
counts at least 10⁻⁵ and less than 10¹⁶, and with a power of ten otherwise. -/
def text (double : Double) : Text :=
  let (digits, power) := shortest double
  let body :=
    if -5 ≤ power && power < 16 then plainText digits power else scientificText digits power
  if double.negative then '-' :: body else body

end Double
end BuildInputs

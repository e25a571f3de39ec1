import Timetable.Numeric.Double

/-!
# Decimal numerals

A `Numeral` is a number written in digits, kept as it is written.  Its value as a floating-point
number is found with two roundings at most: the leading digits that fit a word of 64 bits are turned
into a floating-point number, and that is multiplied or divided by a power of ten.
-/

set_option autoImplicit false

namespace Timetable

/-- The number that some decimal digits write. -/
def numberOf (digits : List Nat) : Nat := digits.foldl (fun n d => n * 10 + d) 0

/-- A number as it is written.  Digits are numbers below ten. -/
structure Numeral where
  isNegative : Bool
  /-- The digits before the point. -/
  whole : List Nat
  /-- The digits behind the point, if there is one. -/
  fraction : Option (List Nat)
  /-- The power of ten behind the digits, if there is one. -/
  exponent : Option Int
  deriving DecidableEq, Repr, Inhabited

namespace Numeral

/-- Appends whole digits to a number as long as it stays below `2 ^ 64`, and counts the digits that
are left out. -/
def takeWhole : List Nat → (n dropped : Nat) → Nat × Nat
  | [], n, dropped => (n, dropped)
  | d :: rest, n, dropped =>
    if dropped = 0 && n * 10 + d < wordSize 64 then takeWhole rest (n * 10 + d) 0
    else takeWhole rest n (dropped + 1)

/-- Appends digits to a number as long as it stays below `2 ^ 64`, and counts those appended. -/
def takeFraction : List Nat → (n taken : Nat) → Nat × Nat
  | [], n, taken => (n, taken)
  | d :: rest, n, taken =>
    if n * 10 + d < wordSize 64 then takeFraction rest (n * 10 + d) (taken + 1) else (n, taken)

/-- The leading digits as a number below `2 ^ 64`, and the power of ten it is to be multiplied
by. -/
def significand (n : Numeral) : Nat × Int :=
  let (whole, dropped) := takeWhole n.whole 0 0
  let (digits, taken) := takeFraction (n.fraction.getD []) whole 0
  (digits, n.exponent.getD 0 + ((dropped : Int) - (taken : Int)))

/-- A number times a power of ten; none if it is too large to be finite.  Powers below `10 ^ -308`
are divided by in steps, of which three are enough to bring any number to zero. -/
def timesPowerOfTen (x : Float) : (steps : Nat) → (exponent : Int) → Option Float
  | 0, _ => some 0.0
  | steps + 1, e =>
    if e ≥ 0 then
      if x == 0.0 then some x
      else if e > 308 then none
      else
        let y := x * Float.ofScientific 1 false e.toNat
        if y.isInf then none else some y
    else if e ≥ -308 then some (x / Float.ofScientific 1 false e.natAbs)
    else timesPowerOfTen (x / Float.ofScientific 1 false 308) steps (e + 308)

/-- The value of a numeral as a floating-point number; none if it is out of range. -/
def toFloat? (n : Numeral) : Option Float :=
  let (digits, exponent) := n.significand
  (timesPowerOfTen digits.toFloat 4 exponent).map fun x => if n.isNegative then -x else x

/-- Whether a numeral is too large for a floating-point number. -/
def isOutOfRange (n : Numeral) : Bool := n.toFloat?.isNone

/-- The value of a numeral without point and exponent.  Negative zero is none, nor is what does not
fit 64 bits, with a sign or without. -/
def toInt? (n : Numeral) : Option Int :=
  match n.fraction, n.exponent with
  | none, none =>
    let value := numberOf n.whole
    if n.isNegative then
      if 0 < value ∧ value ≤ wordSize 63 then some (-(value : Int)) else none
    else if value < wordSize 64 then some value else none
  | _, _ => none

end Numeral

end Timetable

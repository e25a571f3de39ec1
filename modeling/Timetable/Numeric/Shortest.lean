/-!
# Shortest decimal text of a floating-point number

A positive floating-point number is `m * 2 ^ q` for whole numbers `m` and `q`.  Every real number
nearer to it than to its neighbours reads back as it, and so do the two points halfway if `m` is
even.  Among the decimals in this interval `shortest` takes one with the fewest digits and, of
these, the nearest; a `Tie` says which one if two are equally near.

It looks at the decimals with one digit, then at those with two, and so on.  If one of them lies in
the interval, then so does one of the two next to the number, so only these are tried.
-/

set_option autoImplicit false

namespace Timetable

/-- A positive number `numerator / denominator`. -/
structure Fraction where
  numerator : Nat
  denominator : Nat
  deriving Repr, Inhabited

namespace Fraction

/-- The fraction `m * 2 ^ q`. -/
def ofBinary (m : Nat) (q : Int) : Fraction :=
  if q ≥ 0 then ⟨m <<< q.toNat, 1⟩ else ⟨m, 1 <<< q.natAbs⟩

/-- The fraction `n * 10 ^ e`. -/
def ofDecimal (n : Nat) (e : Int) : Fraction :=
  if e ≥ 0 then ⟨n * Nat.pow 10 e.toNat, 1⟩ else ⟨n, Nat.pow 10 e.natAbs⟩

/-- Whether a fraction is less than another one. -/
def lt (x y : Fraction) : Bool := decide (x.numerator * y.denominator < y.numerator * x.denominator)

/-- The whole part of a fraction. -/
def floor (x : Fraction) : Nat := x.numerator / x.denominator

/-- The quotient of two fractions. -/
def div (x y : Fraction) : Fraction :=
  ⟨x.numerator * y.denominator, x.denominator * y.numerator⟩

/-- The number of zeros behind the point of a fraction below one, up to `fuel`. -/
def leadingZeros : (fuel : Nat) → Fraction → Nat
  | 0, _ => 0
  | fuel + 1, x =>
    if x.numerator * 10 < x.denominator then
      leadingZeros fuel ⟨x.numerator * 10, x.denominator⟩ + 1
    else 0

/-- The power of ten next above a fraction.  No floating-point number has more than 400 zeros behind
the point. -/
def magnitude (x : Fraction) : Int :=
  if x.floor = 0 then -(leadingZeros 400 x : Int) else (Nat.toDigits 10 x.floor).length

end Fraction

/-- Which one to take of two neighbouring decimals for the number halfway between them. -/
inductive Tie
  /-- The upper one. -/
  | up
  /-- The one with an even digit at the end. -/
  | toEven
  deriving DecidableEq, Repr, Inhabited

/-- The numbers that read back as a floating-point number. -/
structure Interval where
  value : Fraction
  lower : Fraction
  upper : Fraction
  /-- Whether the ends are included. -/
  closed : Bool

namespace Interval

/-- The interval of `m * 2 ^ q`.  `atPower` says that the numbers below are twice as dense. -/
def ofBinary (m : Nat) (q : Int) (atPower : Bool) : Interval where
  value := .ofBinary m q
  lower := .ofBinary (if atPower then 4 * m - 1 else 4 * m - 2) (q - 2)
  upper := .ofBinary (4 * m + 2) (q - 2)
  closed := m % 2 = 0

/-- Whether a number lies in an interval. -/
def contains (i : Interval) (x : Fraction) : Bool :=
  if i.closed then !x.lt i.lower && !i.upper.lt x else i.lower.lt x && x.lt i.upper

/-- The decimal with a digit at the place `e`, and none behind, that is nearest to the number, if it
or its neighbour on the other side lies in the interval. -/
def nearest? (i : Interval) (tie : Tie) (e : Int) : Option Nat :=
  let below := (i.value.div (.ofDecimal 1 e)).floor
  let hitBelow := below > 0 && i.contains (.ofDecimal below e)
  let hitAbove := i.contains (.ofDecimal (below + 1) e)
  if hitBelow && hitAbove then
    let middle := Fraction.ofDecimal (10 * below + 5) (e - 1)
    let isBelow := i.value.lt middle
    let isHalfway := !isBelow && !middle.lt i.value
    some (if isBelow || isHalfway && tie = .toEven && below % 2 = 0 then below else below + 1)
  else if hitBelow then some below
  else if hitAbove then some (below + 1)
  else none

/-- The shortest decimal of an interval among those with `digits` digits or more, as a number and
the power of ten it is multiplied by.  Seventeen digits are always enough. -/
def shortestFrom (i : Interval) (tie : Tie) (magnitude : Int) : (fuel digits : Nat) → Nat × Int
  | 0, digits => (0, magnitude - digits)
  | fuel + 1, digits =>
    let e := magnitude - digits
    match i.nearest? tie e with
    | some n => (n, e)
    | none => shortestFrom i tie magnitude fuel (digits + 1)

end Interval

/-- The number `n * 10 ^ e` without zeros at the end of `n`, of which there are at most `fuel`. -/
def dropZeros : (fuel n : Nat) → (e : Int) → Nat × Int
  | 0, n, e => (n, e)
  | fuel + 1, n, e => if n % 10 = 0 then dropZeros fuel (n / 10) (e + 1) else (n, e)

/-- The shortest decimal of a positive finite number, given by its bits: a number that does not end
in zero and the power of ten it is multiplied by. -/
def shortest (tie : Tie) (bits : UInt64) : Nat × Int :=
  let exponent := ((bits >>> 52) &&& 0x7ff).toNat
  let fraction := (bits &&& 0xfffffffffffff).toNat
  let m := if exponent = 0 then fraction else 0x10000000000000 + fraction
  let q : Int := if exponent = 0 then -1074 else (exponent : Int) - 1075
  let i := Interval.ofBinary m q (fraction = 0 && exponent > 1)
  let (n, e) := i.shortestFrom tie i.value.magnitude 17 1
  dropZeros 20 n e

/-- The number `n * 10 ^ e` written out, with a point only if there are digits behind it. -/
def positional (n : Nat) (e : Int) : String :=
  let digits := Nat.toDigits 10 n
  if e ≥ 0 then String.ofList (digits ++ List.replicate e.toNat '0')
  else
    let places := e.natAbs
    if places < digits.length then
      let whole := digits.length - places
      String.ofList (digits.take whole ++ '.' :: digits.drop whole)
    else String.ofList ('0' :: '.' :: List.replicate (places - digits.length) '0' ++ digits)

/-- Numbers in messages are written out with the fewest digits that read back, never with a power of
ten.  Halfway, the upper decimal is taken, and negative zero keeps its sign. -/
def floatText (x : Float) : String :=
  let bits := x.toBits
  let sign := if bits >>> 63 = 1 then "-" else ""
  if x.isNaN then "NaN"
  else if x.isInf then sign ++ "inf"
  else if bits <<< 1 = 0 then sign ++ "0"
  else
    let (n, e) := shortest .up (bits &&& 0x7fffffffffffffff)
    sign ++ positional n e

end Timetable

import Timetable.Numeric.Natural

/-!
# Arithmetic on floating-point numbers

A few operations on `Float` whose behaviour at the edges matters: what becomes of infinities, of
NaN and of the two zeros.
-/

set_option autoImplicit false

namespace Timetable

/-- The sum of a list from left to right, begun with negative zero, which is neutral: the sum of
nothing is negative zero, and adding one number to it gives that number, sign of zero included. -/
def floatSum (xs : List Float) : Float := xs.foldl (· + ·) (-0.0)

/-- The sign of a number: 1 or -1, by the sign of zero too, and NaN for NaN. -/
def signOf (x : Float) : Float :=
  if x.isNaN then x
  else if x.toBits >>> 63 = 1 then -1.0 else 1.0

/-- The number, or zero if it is negative or NaN. -/
def positivePart (x : Float) : Float := if x > 0.0 then x else 0.0

/-- The number brought into the interval from 0 to 1; NaN stays NaN. -/
def clampUnit (x : Float) : Float :=
  if x < 0.0 then 0.0 else if x > 1.0 then 1.0 else x

/-- The whole part of a number, kept within 64 bits: negative numbers and NaN give 0, and numbers
that are too large give the largest word. -/
def wholePart (x : Float) : Nat := x.toUInt64.toNat

theorem wholePart_lt (x : Float) : wholePart x < wordSize 64 := x.toUInt64.toNat_lt

end Timetable

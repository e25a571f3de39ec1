import Timetable.Numeric.Double

/-!
# Cooling

A `Cooling` gives the temperature at a step out of so many.  Those with a name go from about 1 down
to about 0.
-/

set_option autoImplicit false

namespace Timetable

/-- The temperature at a step, given the number of all steps. -/
def Cooling : Type := (step total : Nat) → Float

/-- A cooling with a name. -/
inductive CoolingKind
  /-- `(n - 1 - s) / n`, which is 0 at the last step. -/
  | linear
  /-- `(n - s) / n`, which is never 0 at a step. -/
  | linearInclusive
  /-- `((n - s) / n) ^ 2`. -/
  | quadratic
  deriving DecidableEq, Repr, Inhabited

namespace CoolingKind

/-- All kinds of cooling. -/
def all : List CoolingKind := [linear, linearInclusive, quadratic]

/-- The name of a kind in configurations. -/
def name : CoolingKind → String
  | linear => "LINEAR"
  | linearInclusive => "LINEAR_INCLUSIVE"
  | quadratic => "QUADRATIC"

/-- The cooling of a kind.  Steps behind the last count as the last, and out of no steps at all the
temperature is 0. -/
def cooling (k : CoolingKind) : Cooling := fun step total =>
  if total = 0 then 0.0
  else
    let n := total.toFloat
    let s := (Nat.min step total).toFloat
    match k with
    | linear => positivePart ((n - 1.0 - s) / n)
    | linearInclusive => (n - s) / n
    | quadratic =>
      let x := (n - s) / n
      x * x

end CoolingKind

/-- A cooling with all temperatures multiplied by a factor. -/
def Cooling.scaled (factor : Float) (c : Cooling) : Cooling := fun step total =>
  factor * c step total

end Timetable

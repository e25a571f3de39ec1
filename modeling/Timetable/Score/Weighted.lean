import Timetable.Score.Metric

/-!
# Scores

A score is a sum of weighted terms.  A `Term` takes the value of a metric, raises its magnitude to a
power while the sign is kept, and multiplies the result by a weight.
-/

set_option autoImplicit false

namespace Timetable

/-- One term of a score. -/
structure Term where
  metric : Metric
  exponent : Float := 1.0
  multiplier : Float := 1.0
  deriving Repr, Inhabited

/-- The power of a number with the sign of the number.  The first power is the number itself. -/
def signedPower (x exponent : Float) : Float :=
  if exponent == 1.0 then x else signOf x * x.abs.pow exponent

/-- The value of a term. -/
def Term.value {p : Program} (t : Term) (s : Schedule p) : Float :=
  t.multiplier * signedPower (t.metric.evaluate s) t.exponent

/-- The score that some terms give a schedule. -/
def scoreOf {p : Program} (terms : List Term) (s : Schedule p) : Float :=
  floatSum (terms.map (·.value s))

end Timetable

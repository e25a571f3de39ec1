import Timetable.Random.Source

/-!
# Accepting a candidate

An `Acceptance` decides whether a search goes on from a candidate, given the score of the state it
stands at and that of the candidate.  The decision may depend on the temperature and on a draw.
-/

set_option autoImplicit false

namespace Timetable

/-- A rule for going on from a candidate, with draws from a source of type `G`. -/
def Acceptance (G R : Type) : Type :=
  (old new : R) → (temperature : Float) → G → Bool × G

namespace Acceptance

variable {G : Type}

/-- The probability that a candidate is accepted by the standard rule: 1 unless it is worse, else
falling off with how much worse it is, the faster the lower the temperature. -/
def probability (old new temperature : Float) : Float :=
  if new ≥ old then 1.0
  else if temperature ≤ 0.0 then 0.0
  else ((new - old) / temperature).exp

/-- The standard rule.  Nothing is drawn unless the candidate is worse. -/
def standard [RandomSource G] : Acceptance G Float := fun old new temperature rng =>
  if new ≥ old then (true, rng)
  else
    let (x, rng) := RandomSource.unit rng
    (decide (x < probability old new temperature), rng)

/-- Only what is better is accepted. -/
def greedy {R : Type} [LT R] [DecidableLT R] : Acceptance G R := fun old new _ rng =>
  (decide (old < new), rng)

end Acceptance

end Timetable

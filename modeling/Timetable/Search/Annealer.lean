import Timetable.Move.Basic
import Timetable.Search.Acceptance
import Timetable.Search.Cooling

/-!
# Annealing

An `Annealer` walks from state to state.  In each step it makes a move at the temperature of the
step, notes the new state if it is the best so far, and goes on from it if it is accepted.  The best
state is kept apart from the current one, since the walk may leave it.

Scores may be of any type with a decidable order; nothing here assumes the order to be total.
-/

set_option autoImplicit false

namespace Timetable

/-- What a walk through states is guided by. -/
structure Annealer (G S R : Type) where
  score : S → R
  move : Move G S
  cooling : Cooling
  acceptance : Acceptance G R
  rng : G

/-- Where a walk has come to. -/
structure Walk (G S R : Type) where
  /-- The state the walk goes on from. -/
  current : S
  currentScore : R
  /-- The first state of those scored that no later one beats. -/
  best : S
  bestScore : R
  /-- All states that were scored, the last one first. -/
  scored : List S
  rng : G
  /-- The time the moves took, in milliseconds. -/
  elapsed : Nat

namespace Annealer

variable {G S R : Type} [LT R] [DecidableLT R] (a : Annealer G S R)

/-- The walk that has not left its first state. -/
def begin (initial : S) : Walk G S R where
  current := initial
  currentScore := a.score initial
  best := initial
  bestScore := a.score initial
  scored := [initial]
  rng := a.rng
  elapsed := 0

/-- Takes a candidate into account: it is the best state now if it beats the best so far, and the
walk goes on from it if it is accepted. -/
def consider (w : Walk G S R) (temperature : Float) (step : Step G S) : Walk G S R :=
  let score := a.score step.state
  let better := decide (w.bestScore < score)
  let (accepted, rng) := a.acceptance w.currentScore score temperature step.rng
  { current := if accepted then step.state else w.current
    currentScore := if accepted then score else w.currentScore
    best := if better then step.state else w.best
    bestScore := if better then score else w.bestScore
    scored := step.state :: w.scored
    rng
    elapsed := w.elapsed + step.elapsed }

/-- One step of a walk. -/
def advance (temperature : Float) (w : Walk G S R) : Except Fault (Walk G S R) :=
  (a.move w.current temperature w.rng).map (a.consider w temperature)

/-- The last `todo` steps of a walk of `total` steps, fewer if it is cancelled before one of
them. -/
def walkFrom (cancelled : Nat → Bool) (total : Nat) :
    (todo : Nat) → Walk G S R → Except Fault (Walk G S R)
  | 0, w => .ok w
  | todo + 1, w =>
    let step := total - (todo + 1)
    if cancelled step then .ok w
    else do
      let w ← a.advance (a.cooling step total) w
      walkFrom cancelled total todo w

/-- Walks so many steps from a state.  Before each step the walk ends if it is cancelled. -/
def run (steps : Nat) (initial : S) (cancelled : Nat → Bool := fun _ => false) :
    Except Fault (Walk G S R) :=
  a.walkFrom cancelled steps steps (a.begin initial)

/-- Several walks one after the other, each from the best state of the one before and with the
source that it left.  If `limit` is given, all walking is cancelled for good once that many
states of one walk have been scored. -/
def runs (limit : Option Nat) : (cancelled : Bool) → (steps : List Nat) → Annealer G S R → S →
    Except Fault (List (Walk G S R))
  | _, [], _, _ => .ok []
  | cancelled, steps :: rest, a, initial => do
    let reached := fun n => (limit.map (decide <| · ≤ n)).getD false
    let w ← a.run steps initial fun step => cancelled || reached (step + 1)
    let cancelled := cancelled || reached w.scored.length
    let later ← runs limit cancelled rest { a with rng := w.rng } w.best
    return w :: later

end Annealer

end Timetable

import Timetable.Fault
import Timetable.Random.Source

/-!
# Moves of a search

A `Move` takes a state to a random neighbour.  It is told a temperature, and the lower that is, the
less it should change.  Randomness comes from a source that is passed along.

Moves are put together by `Move.sequence`, `Move.scaled` and `Move.retry`.
-/

set_option autoImplicit false

namespace Timetable

/-- Where a move has led. -/
structure Step (G S : Type) where
  state : S
  /-- The source to go on with. -/
  rng : G
  /-- The time the move took, in milliseconds. -/
  elapsed : Nat := 0
  deriving Inhabited

/-- A way to a random neighbour of a state, at a temperature, with draws from a source of type `G`.
A move may give up with a fault. -/
def Move (G S : Type) : Type := S → Float → G → Except Fault (Step G S)

namespace Move

variable {G S : Type}

/-- Goes on from a step with a move. -/
def proceed (m : Move G S) (temperature : Float) (step : Step G S) : Except Fault (Step G S) :=
  (m step.state temperature step.rng).map fun next =>
    { next with elapsed := step.elapsed + next.elapsed }

/-- Makes the moves of a list one after the other. -/
def sequence (moves : List (Move G S)) : Move G S := fun s temperature rng =>
  moves.foldlM (fun step m => m.proceed temperature step) ⟨s, rng, 0⟩

/-- Makes a move at a multiple of the temperature. -/
def scaled (factor : Float) (m : Move G S) : Move G S := fun s temperature rng =>
  m s (temperature * factor) rng

/-- Tries a move from a state until the outcome is accepted, so many times at most, going on with a
source after so much time. -/
def retryFrom (accept : S → S → Bool) (m : Move G S) (s : S) (temperature : Float) :
    (attempts : Nat) → Step G S → Except Fault (Step G S)
  | 0, step => .ok step
  | attempts + 1, step => do
    let next ← m.proceed temperature { step with state := s }
    if accept s next.state then return next
    else retryFrom accept m s temperature attempts { next with state := s }

/-- Tries a move until `accept` holds of the old and the new state, so many times at most.  If it
never does, the state stays as it was. -/
def retry (attempts : Nat) (accept : S → S → Bool) (m : Move G S) : Move G S :=
  fun s temperature rng => retryFrom accept m s temperature attempts ⟨s, rng, 0⟩

end Move

end Timetable

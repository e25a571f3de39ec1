import Timetable.Search.Rounds

/-!
# Workers side by side

`Search.round` is told what is seen of a round.  Here is how it comes to be seen, with everybody at
work at the same time.

The coordinator of a round sends out its workers one by one, all with the best state there is when
the round begins, and then waits for their reports.  A worker walks at its own pace.  When it has
found a state, it takes hold of the best state of the search, puts its own in the place of it if
that is better, lets go, and then reports.  If the time for the round is up, the coordinator takes
hold of the best state to raise a flag.  A worker looks at the flag before each of its steps, and
once more when it has hold of the best state; if the flag is raised then, it leaves without a word.

Only one at a time has hold of the best state.  So what somebody does with it is a single step, and
a search is a sequence of steps of the coordinator and of the workers, in whatever order they come
about (`Crew.Step`).  A worker can fail at any time while it walks, and one that is late is still
around when the next rounds are played.
-/

set_option autoImplicit false

namespace Timetable

/-! ## Who takes part -/

/-- What a worker is about. -/
inductive Phase (S R : Type)
  /-- It walks. -/
  | walking
  /-- It has found a state, and has not compared it with the best one yet. -/
  | offering (found : Scored S R)
  /-- It has compared its state with the best one, and has not reported yet. -/
  | reporting
  /-- It does nothing any more. -/
  | gone

/-- Whether a worker is done. -/
def Phase.isGone {S R : Type} : Phase S R → Bool
  | gone => true
  | _ => false

/-- A worker of a round. -/
structure Worker (S R : Type) where
  annealer : Annealer Generator S R
  /-- The state it starts from. -/
  start : S
  phase : Phase S R := .walking

/-- Where the coordinator of a round is. -/
inductive Stage
  /-- It sends out workers. -/
  | sending
  /-- It waits for reports. -/
  | waiting
  /-- It waits no longer, and has not entered the round into the history yet. -/
  | leaving
  /-- The round is in the history. -/
  | closed
  deriving DecidableEq, Repr

/-- Whether the coordinator has stopped waiting. -/
def Stage.isOver : Stage → Bool
  | leaving | closed => true
  | sending | waiting => false

/-- A round, as far as it has come. -/
structure Round (S R : Type) where
  temperature : Float
  /-- The best state when the round began. -/
  opening : Scored S R
  /-- The workers that have been sent out, in order. -/
  workers : List (Worker S R) := []
  /-- Whether the flag is raised that tells the workers to stop. -/
  cancelled : Bool := false
  /-- The number of reports that wait to be received. -/
  unread : Nat := 0
  received : Nat := 0
  stage : Stage := .sending

/-- How far a search has come. -/
structure Scene (S R : Type) where
  best : Scored S R
  /-- All rounds so far, the first one first. -/
  rounds : List (Round S R) := []
  /-- The rounds that are closed, the last one first. -/
  history : List (RoundReport R) := []

/-- A crew whose workers score as the crew does, each with an annealer of its own. -/
structure Crew (S R : Type) where
  config : RoundConfig
  score : S → R
  /-- The temperature of the steps of a worker, before it is multiplied by that of the round. -/
  sub : Cooling
  /-- Makes the annealer of a worker from the temperature of its steps and its seed. -/
  recruit : Cooling → UInt64 → Annealer Generator S R
  score_recruit : ∀ cooling seed, (recruit cooling seed).score = score

/-- The crew of a search, in which all workers move and accept in the same way. -/
def Search.crew {S R : Type} (search : Search S R) : Crew S R where
  config := search.config
  score := search.score
  sub := search.sub
  recruit cooling seed :=
    { score := search.score, move := search.move, cooling, acceptance := search.acceptance
      rng := .ofSeed seed }
  score_recruit _ _ := rfl

/-! ## What a worker does -/

section Worker

variable {S R : Type} [LT R] [DecidableLT R]

/-- A worker of a round acts: what becomes of it and of the best state, and how many reports it
makes.  How the flag is seen to be, before each step of the walk, is up to chance once it is
raised. -/
inductive Worker.Acts (steps : Nat) (cancelled : Bool) (best : Scored S R) (w : Worker S R) :
    Worker S R → Scored S R → Nat → Prop
  /-- The worker ends its walk. -/
  | finish {seen : Nat → Bool} {walk : Walk Generator S R} : w.phase = .walking →
    (cancelled = false → ∀ step, seen step = false) →
    w.annealer.run steps w.start seen = .ok walk →
    Acts steps cancelled best w { w with phase := .offering (walk.best, walk.bestScore) } best 0
  /-- The worker fails. -/
  | fail : w.phase = .walking → Acts steps cancelled best w { w with phase := .gone } best 0
  /-- The worker gets hold of the best state. -/
  | offer {found : Scored S R} : w.phase = .offering found → cancelled = false →
    Acts steps cancelled best w { w with phase := .reporting } (keepBetter best found) 0
  /-- The worker gets hold of the best state when the flag is raised. -/
  | leave {found : Scored S R} : w.phase = .offering found → cancelled = true →
    Acts steps cancelled best w { w with phase := .gone } best 0
  | report : w.phase = .reporting → Acts steps cancelled best w { w with phase := .gone } best 1

end Worker

namespace Crew

variable {S R : Type} [LT R] [DecidableLT R] (crew : Crew S R)

/-! ## What the coordinator does -/

/-- The number of workers in a round. -/
def size : Nat := Nat.max crew.config.workers 1

/-- The worker with the number `i` of a round, when it is sent out. -/
def worker (number i : Nat) (temperature : Float) (opening : Scored S R) : Worker S R where
  annealer := crew.recruit (crew.sub.scaled temperature) (crew.config.workerSeed number i)
  start := opening.1

/-- The coordinator makes a step in the round with this number. -/
inductive Coordinates (number : Nat) (r : Round S R) : Round S R → Prop
  /-- Another worker is sent out. -/
  | send : r.stage = .sending → r.workers.length < crew.size →
    Coordinates number r { r with
      workers := r.workers ++ [crew.worker number r.workers.length r.temperature r.opening] }
  /-- All workers are on their way. -/
  | await : r.stage = .sending → r.workers.length = crew.size →
    Coordinates number r { r with stage := .waiting }
  /-- A report comes in. -/
  | receive {unread : Nat} : r.stage = .waiting → r.received < crew.size → r.unread = unread + 1 →
    Coordinates number r { r with unread, received := r.received + 1 }
  /-- All reports are in. -/
  | complete : r.stage = .waiting → r.received = crew.size →
    Coordinates number r { r with stage := .leaving }
  /-- The time for the round is up. -/
  | deadline : r.stage = .waiting → r.received < crew.size →
    Coordinates number r { r with cancelled := true, stage := .leaving }
  /-- There is no report to be received, and nobody left to make one. -/
  | disconnect : r.stage = .waiting → r.received < crew.size → r.unread = 0 →
    (∀ w ∈ r.workers, w.phase = .gone) → Coordinates number r { r with stage := .leaving }

/-! ## Searching -/

/-- Whose turn it is. -/
inductive Turn
  | begin
  | coordinate (round : Nat)
  | act (round worker : Nat)
  | close (round : Nat)
  deriving DecidableEq, Repr

/-- Somebody makes a step. -/
inductive Step (s : Scene S R) : Turn → Scene S R → Prop
  /-- The next round begins, at any temperature, once those before are closed. -/
  | begin (temperature : Float) : (∀ r ∈ s.rounds, r.stage = .closed) →
    Step s .begin { s with rounds := s.rounds ++ [{ temperature, opening := s.best }] }
  | coordinate {k : Nat} {r r' : Round S R} : s.rounds[k]? = some r → crew.Coordinates k r r' →
    Step s (.coordinate k) { s with rounds := s.rounds.set k r' }
  | act {k i : Nat} {r : Round S R} {w w' : Worker S R} {best : Scored S R} {sent : Nat} :
    s.rounds[k]? = some r → r.workers[i]? = some w →
    w.Acts crew.config.steps r.cancelled s.best w' best sent →
    Step s (.act k i) { s with
      best
      rounds := s.rounds.set k
        { r with workers := r.workers.set i w', unread := r.unread + sent } }
  /-- The round is entered into the history with the best score there is. -/
  | close {k : Nat} {r : Round S R} (elapsed : Nat) : s.rounds[k]? = some r → r.stage = .leaving →
    Step s (.close k) { s with
      rounds := s.rounds.set k { r with stage := .closed }
      history :=
        { round := k, temperature := r.temperature, bestScore := s.best.2, received := r.received
          seeds := crew.config.seeds k, elapsed } :: s.history }

/-- The scene when a search sets out from a state. -/
def opening (initial : S) : Scene S R where
  best := (initial, crew.score initial)

end Crew

end Timetable

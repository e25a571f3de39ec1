import Timetable.Random.Choice
import Timetable.Search.Annealer

/-!
# Searching in rounds

A `Search` sends several annealers out at once, its workers.  All workers of a round start from the
best state found so far, each with a seed of its own; when the round ends, the best of what they
bring back is kept, if it is better, and the next round starts from that.

Workers finish in any order, may fail, and may be late.  What is seen of a round is therefore a list
of `Event`s, and how the outcomes of the workers become events is left open to an `Arrival`.  After
the deadline nothing counts any more.

Time is logical.  A worker takes the time its moves take, and a round as long as its slowest worker,
up to the deadline, but never less than a millisecond.
-/

set_option autoImplicit false

namespace Timetable

/-- How a search goes about its rounds.  Times are in milliseconds. -/
structure RoundConfig where
  /-- The number of workers; at least one is sent out. -/
  workers : Nat := 4
  /-- The number of steps each worker takes. -/
  steps : Nat := 1000
  /-- How long a round waits for its workers. -/
  timeout : Nat := 10000
  /-- How long the search goes on without finding anything better. -/
  patience : Nat := 1200000
  seed : UInt64 := 0
  deriving DecidableEq, Repr, Inhabited

/-- A state and its score. -/
abbrev Scored (S R : Type) := S × R

/-- What has become of a worker. -/
inductive Outcome (S R : Type)
  | finished (best : Scored S R) (elapsed : Nat)
  | failed

/-- What is seen of a round. -/
inductive Event (S R : Type)
  /-- A worker brings back the best state it found. -/
  | result (found : Scored S R)
  /-- A worker is known to bring back nothing. -/
  | loss
  /-- The time for the round is up. -/
  | deadline

/-- How the outcomes of the workers of a round turn into events. -/
def Arrival (S R : Type) : Type := List (Outcome S R) → List (Event S R)

/-- A finished round. -/
structure RoundReport (R : Type) where
  /-- The number of the round in its call. -/
  round : Nat
  temperature : Float
  /-- The best score after the round. -/
  bestScore : R
  /-- The number of workers that reported before the deadline. -/
  received : Nat
  /-- The seeds of the workers. -/
  seeds : List UInt64
  elapsed : Nat
  deriving Repr, Inhabited

/-- Workers that search together. -/
structure Search (S R : Type) where
  config : RoundConfig
  score : S → R
  move : Move Generator S
  acceptance : Acceptance Generator R
  /-- The temperature of the rounds. -/
  primary : Cooling
  /-- The temperature of the steps of a worker, before it is multiplied by that of the round. -/
  sub : Cooling

/-- How far a search has come. -/
structure Progress (S R : Type) where
  best : Option (Scored S R) := none
  /-- The number of rounds of all calls so far. -/
  rounds : Nat := 0
  /-- The rounds of all calls so far, the last one first. -/
  history : List (RoundReport R) := []
  deriving Inhabited

/-! ## The best state -/

section Best

variable {S R : Type} [LT R] [DecidableLT R]

/-- Keeps the better of two results; if they are equally good, the one that was there. -/
def keepBetter (best found : Scored S R) : Scored S R :=
  if best.2 < found.2 then found else best

/-- What a round makes of the best state, and how many results it receives.  The events are dealt
with in order, and the deadline ends the round. -/
def settle : Scored S R → List (Event S R) → Scored S R × Nat
  | best, [] => (best, 0)
  | best, .deadline :: _ => (best, 0)
  | best, .loss :: rest => settle best rest
  | best, .result found :: rest =>
    let (best, received) := settle (keepBetter best found) rest
    (best, received + 1)

/-- Enters the first state of a call.  It replaces the best state of earlier calls unless its score
is at most as good. -/
def seedBest [LE R] [DecidableLE R] (best : Option (Scored S R)) (initial : Scored S R) :
    Scored S R :=
  match best with
  | none => initial
  | some best => if initial.2 ≤ best.2 then best else initial

end Best

/-! ## Workers -/

/-- The seed of a worker: the base seed plus the number of the worker among all workers of all
rounds, spread over the whole word. -/
def RoundConfig.workerSeed (c : RoundConfig) (round worker : Nat) : UInt64 :=
  (c.seed + (round * c.workers + worker).toUInt64) * goldenGamma

/-- The seeds of the workers of a round. -/
def RoundConfig.seeds (c : RoundConfig) (round : Nat) : List UInt64 :=
  (List.range (Nat.max c.workers 1)).map (c.workerSeed round)

/-- The workers report in order, those that are late after the deadline. -/
def Arrival.inOrder {S R : Type} (timeout : Nat) : Arrival S R := fun outcomes =>
  let onTime := outcomes.filterMap fun
    | .finished best elapsed => if elapsed ≤ timeout then some (.result best) else none
    | .failed => some .loss
  let late := outcomes.filterMap fun
    | .finished best elapsed => if elapsed ≤ timeout then none else some (.result best)
    | .failed => none
  if late.isEmpty then onTime else onTime ++ .deadline :: late

namespace Search

variable {S R : Type} [LT R] [DecidableLT R] (search : Search S R)

/-- The annealer of a worker in a round at a temperature. -/
def annealer (temperature : Float) (seed : UInt64) : Annealer Generator S R where
  score := search.score
  move := search.move
  cooling := search.sub.scaled temperature
  acceptance := search.acceptance
  rng := .ofSeed seed

/-- What becomes of a worker. -/
def outcome (temperature : Float) (start : S) (seed : UInt64) : Outcome S R :=
  match (search.annealer temperature seed).run search.config.steps start with
  | .ok w => .finished (w.best, w.bestScore) w.elapsed
  | .error _ => .failed

/-- How long a round takes. -/
def roundTime (outcomes : List (Outcome S R)) : Nat :=
  outcomes.foldl (fun time o =>
    match o with
    | .finished _ elapsed => Nat.max time (Nat.min elapsed search.config.timeout)
    | .failed => time) 1

/-- Plays one round. -/
def round (arrive : Arrival S R) (number : Nat) (temperature : Float) (best : Scored S R)
    (progress : Progress S R) : Progress S R × RoundReport R :=
  let seeds := search.config.seeds progress.rounds
  let outcomes := seeds.map (search.outcome temperature best.1)
  let (after, received) := settle best (arrive outcomes)
  let report :=
    { round := number, temperature, bestScore := after.2, received, seeds
      elapsed := search.roundTime outcomes }
  ({ best := some after, rounds := progress.rounds + 1, history := report :: progress.history },
    report)

/-- Plays rounds until `todo` of them are played or the patience is used up, which is so after a
round without progress when there has been none for that long.  `idle` is the time without progress
so far. -/
def playRounds (arrive : Nat → Arrival S R) (total : Nat) :
    (todo idle : Nat) → Scored S R → Progress S R → Progress S R
  | 0, _, _, progress => progress
  | todo + 1, idle, best, progress =>
    let number := total - (todo + 1)
    let (next, report) :=
      search.round (arrive number) number (search.primary number total) best progress
    let after := next.best.getD best
    if best.2 < after.2 then playRounds arrive total todo 0 after next
    else
      let idle := idle + report.elapsed
      if idle ≥ search.config.patience then next
      else playRounds arrive total todo idle after next

/-- Plays rounds for a time.  As each takes some time, `fuel` rounds are enough for a duration of
`fuel` milliseconds. -/
def playFor (arrive : Nat → Arrival S R) (duration : Nat) :
    (fuel number spent idle : Nat) → Scored S R → Progress S R → Progress S R
  | 0, _, _, _, _, progress => progress
  | fuel + 1, number, spent, idle, best, progress =>
    if spent ≥ duration then progress
    else
      let temperature := search.primary spent (Nat.max duration 1)
      let (next, report) := search.round (arrive number) number temperature best progress
      let after := next.best.getD best
      let spent := spent + report.elapsed
      if best.2 < after.2 then playFor arrive duration fuel (number + 1) spent 0 after next
      else
        let idle := idle + report.elapsed
        if idle ≥ search.config.patience then next
        else playFor arrive duration fuel (number + 1) spent idle after next

variable [LE R] [DecidableLE R]

/-- Plays so many rounds from a state, the workers reporting in whatever way. -/
def iterateWith (arrive : Nat → Arrival S R) (rounds : Nat) (initial : S)
    (progress : Progress S R) : Progress S R :=
  let best := seedBest progress.best (initial, search.score initial)
  search.playRounds arrive rounds rounds 0 best { progress with best := some best }

/-- Plays so many rounds from a state. -/
def iterate (rounds : Nat) (initial : S) (progress : Progress S R) : Progress S R :=
  search.iterateWith (fun _ => .inOrder search.config.timeout) rounds initial progress

/-- Plays rounds for so many milliseconds from a state. -/
def iterateFor (duration : Nat) (initial : S) (progress : Progress S R) : Progress S R :=
  let best := seedBest progress.best (initial, search.score initial)
  search.playFor (fun _ => .inOrder search.config.timeout) duration duration 0 0 0 best
    { progress with best := some best }

end Search

end Timetable

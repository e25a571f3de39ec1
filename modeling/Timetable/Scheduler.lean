import Timetable.Config

/-!
# Looking for a good schedule

A `Scheduler` puts a program and a configuration together.  `Scheduler.initial` builds the schedule
to start from; `Scheduler.run` and `Scheduler.runFor` search from it and return a `Plan`, the best
schedule that was found.
-/

set_option autoImplicit false

namespace Timetable

/-- A schedule and what is said of it. -/
structure Plan (p : Program) where
  schedule : Schedule p
  score : Float
  /-- The schedule as triples, the pinned ones marked. -/
  triples : List Triple
  summary : Summary

/-- Why there is no plan. -/
inductive PlanError
  | config (e : ConfigError)
  /-- What is said of the schedule cannot be worked out. -/
  | fault (f : Fault)
  deriving DecidableEq, Repr, Inhabited

/-- A program and how to schedule it. -/
structure Scheduler (p : Program) where
  config : SearchConfig

namespace Scheduler

variable {p : Program} (s : Scheduler p)

/-- The rules of the configuration. -/
def rulebook : Rulebook := s.config.ruleConfig.rulebook

/-- The schedule with all pinned placements and the given triples.  A triple of a section that is
pinned is passed over. -/
def initial (triples : List Triple) : Except PlacementError (Schedule p) :=
  let pinned := s.config.ruleConfig.pinned
  let others := triples.filter fun t => !pinned.any (·.sectionId = t.sectionId)
  s.rulebook.load p (pinned ++ others)

/-- The search that the configuration describes.  A step of a worker makes all configured moves one
after the other. -/
def search : Search (Schedule p) Float where
  config := s.config.roundConfig
  score := scoreOf s.config.terms
  move := .sequence (s.config.moves.map (·.move s.rulebook))
  acceptance := .standard
  primary := s.config.primary.cooling
  sub := s.config.sub.cooling

/-- The plan that a schedule amounts to. -/
def plan (schedule : Schedule p) : Except Fault (Plan p) := do
  return {
    schedule
    score := scoreOf s.config.terms schedule
    triples := s.rulebook.triples schedule
    summary := ← schedule.summary }

/-- The best schedule that a search has found, or the one it was to start from. -/
def bestOf (initial : Schedule p) (progress : Progress (Schedule p) Float) :
    Except Fault (Plan p) :=
  s.plan ((progress.best.map (·.1)).getD initial)

/-- Searches from a schedule for the configured number of rounds. -/
def run (initial : Schedule p) : Except PlanError (Plan p) := do
  s.config.validate.mapError .config
  (s.bestOf initial (s.search.iterate s.config.rounds initial {})).mapError .fault

/-- Searches from a schedule for so many milliseconds. -/
def runFor (duration : Nat) (initial : Schedule p) : Except PlanError (Plan p) := do
  s.config.validate.mapError .config
  (s.bestOf initial (s.search.iterateFor duration initial {})).mapError .fault

end Scheduler

end Timetable

import Timetable.Move.Kind
import Timetable.Numeric.Shortest
import Timetable.Program.Reading
import Timetable.Rule.Kind
import Timetable.Score.Weighted
import Timetable.Search.Rounds

/-!
# Configurations

* A `RuleConfig` selects rules and their parameters; `RuleConfig.rulebook` makes the rulebook.
* A `SearchConfig` says how to look for a good schedule: by which moves and scores, at which
  temperatures, with how many workers and for how long.

Every field may be left out.  `validate` refuses values that make no sense.
-/

set_option autoImplicit false

namespace Timetable

open Json (Decoder Record)

/-- What is wrong with a configuration. -/
inductive ConfigError
  | unreadable (e : JsonError)
  /-- Nothing is given for a role that something has to play. -/
  | missing (role : String)
  | invalid (parameter reason : String)
  deriving DecidableEq, Repr, Inhabited

/-- The text of an error. -/
def ConfigError.message : ConfigError → String
  | unreadable _ => "malformed configuration"
  | missing role => s!"no {role} configured"
  | invalid parameter reason => s!"invalid value for {parameter}: {reason}"

/-! ## Rules -/

/-- Which rules there are, and their parameters. -/
structure RuleConfig where
  rules : List RuleKind := RuleKind.standard
  /-- The least number of seats for each student a course may have. -/
  minimumRatio : Float := 1.0
  /-- The greatest number of seats for each student a course expects; unbounded if there is none. -/
  maximumRatio : Option Float := none
  /-- The placements that are pinned. -/
  pinned : List Triple := []
  /-- The seed of the rules that draw lots. -/
  seed : Option UInt64 := none
  deriving Repr, Inhabited

namespace RuleConfig

/-- The bounds of room size. -/
def bounds (c : RuleConfig) : RuleKind.SizeBounds where
  minimum := c.minimumRatio
  maximum := c.maximumRatio.getD (1.0 / 0.0)

/-- Refuses a ratio that is not positive. -/
def requirePositive (parameter : String) (x : Float) : Except ConfigError Unit :=
  let text := floatText x
  if x > 0.0 then .ok () else .error (.invalid parameter s!"must be positive, got {text}")

/-- Refuses bounds that are not positive. -/
def validate (c : RuleConfig) : Except ConfigError Unit := do
  requirePositive "min_class_cap_ratio" c.minimumRatio
  c.maximumRatio.forM (requirePositive "max_est_class_size_ratio")

/-- The rulebook of a configuration.  The rule at place `i` draws its lots with the seed plus `i`;
without a seed the first one uses 0. -/
def rulebook (c : RuleConfig) : Rulebook :=
  let pins := Pins.ofList c.pinned
  let seed := c.seed.getD 0
  { rules := c.rules.zipIdx.map fun (kind, i) => kind.rule c.bounds pins (seed + i.toUInt64)
    pins }

end RuleConfig

/-! ## Searches -/

/-- How to look for a good schedule. -/
structure SearchConfig where
  terms : List Term := []
  moves : List MoveTerm := []
  /-- The temperature of the rounds. -/
  primary : CoolingKind := .linear
  /-- The temperature of the steps of a worker, before it is multiplied by that of the round. -/
  sub : CoolingKind := .linear
  workers : Nat := 4
  /-- The number of steps of a worker in a round. -/
  steps : Nat := 1000
  rounds : Nat := 100
  /-- How long a round lasts at most, in milliseconds. -/
  timeout : Nat := 10000
  /-- How long to go on without progress, in milliseconds. -/
  patience : Nat := 1200000
  seed : Option UInt64 := none
  ruleConfig : RuleConfig := {}
  deriving Repr, Inhabited

namespace SearchConfig

/-- Refuses a configuration by which nothing can be searched. -/
def validate (c : SearchConfig) : Except ConfigError Unit := do
  if c.terms.isEmpty then throw (.missing "scorer")
  if c.moves.isEmpty then throw (.missing "perturber")
  if c.workers = 0 then throw (.invalid "n_threads" "must be at least 1")
  if c.timeout = 0 then throw (.invalid "iteration_timeout_ms" "must be positive")
  match c.moves.find? fun m => !m.factor.isFinite with
  | some m =>
    let label := m.kind.label
    let text := floatText m.factor
    throw (.invalid "temperature_factor" s!"{label} has factor {text}")
  | none => c.ruleConfig.validate

/-- A configuration makes sense if it has terms and moves, workers and time to wait for them, factors
that are finite, and rules that make sense. -/
theorem validate_eq_ok_iff {c : SearchConfig} : c.validate = .ok () ↔
    c.terms ≠ [] ∧ c.moves ≠ [] ∧ c.workers ≠ 0 ∧ c.timeout ≠ 0 ∧
      (∀ m ∈ c.moves, m.factor.isFinite) ∧ c.ruleConfig.validate = .ok () := by
  have hfinite : (∀ m ∈ c.moves, m.factor.isFinite) ↔
      c.moves.find? (fun m => !m.factor.isFinite) = none := by
    simp
  simp only [validate, hfinite]
  constructor
  · intro h
    split at h
    · cases h
    · next hterms =>
      split at h
      · cases h
      · next hmoves =>
        split at h
        · cases h
        · next hworkers =>
          split at h
          · cases h
          · next htimeout =>
            split at h
            · cases h
            · next hfind =>
              exact ⟨mt List.isEmpty_iff.2 hterms, mt List.isEmpty_iff.2 hmoves, hworkers,
                htimeout, hfind, h⟩
  · rintro ⟨hterms, hmoves, hworkers, htimeout, hfind, hrules⟩
    rw [if_neg (mt List.isEmpty_iff.1 hterms), if_neg (mt List.isEmpty_iff.1 hmoves), if_neg hworkers,
      if_neg htimeout, hfind]
    exact hrules

/-- The parameters of the rounds.  Without a seed they start from 0. -/
def roundConfig (c : SearchConfig) : RoundConfig where
  workers := c.workers
  steps := c.steps
  timeout := c.timeout
  patience := c.patience
  seed := c.seed.getD 0

end SearchConfig

/-! ## Reading configurations -/

def Triple.decoder : Decoder Triple :=
  Record.decoder <| Triple.mk
    <$> .required "section" Id.decoder
    <*> .required "room" Id.decoder
    <*> .required "period" Id.decoder
    <*> .optional "locked" .bool false

/-- A seed is a number of 64 bits. -/
def seedDecoder : Decoder UInt64 := Nat.toUInt64 <$> Decoder.nat 64

def RuleKind.decoder : Decoder RuleKind := .name RuleKind.all RuleKind.name
def Metric.decoder : Decoder Metric := .name Metric.all Metric.name
def MoveKind.decoder : Decoder MoveKind := .name MoveKind.all MoveKind.name
def CoolingKind.decoder : Decoder CoolingKind := .name CoolingKind.all CoolingKind.name

def RuleConfig.decoder : Decoder RuleConfig :=
  Record.decoder <| RuleConfig.mk
    <$> .optional "rules" (.list RuleKind.decoder) RuleKind.standard
    <*> .optional "min_class_cap_ratio" .float 1.0
    <*> .optional "max_est_class_size_ratio" (.option .float) none
    <*> .optional "locked" (.list Triple.decoder) []
    <*> .optional "seed" (.option seedDecoder) none

def Term.decoder : Decoder Term :=
  Record.decoder <| Term.mk
    <$> .required "name" Metric.decoder
    <*> .optional "exponent" .float 1.0
    <*> .optional "multiplier" .float 1.0

def MoveTerm.decoder : Decoder MoveTerm :=
  Record.decoder <| MoveTerm.mk
    <$> .required "name" MoveKind.decoder
    <*> .optional "temperature_factor" .float 1.0

namespace SearchConfig

def decoder : Decoder SearchConfig :=
  Record.decoder <| SearchConfig.mk
    <$> .optional "scorers" (.list Term.decoder) []
    <*> .optional "perturbers" (.list MoveTerm.decoder) []
    <*> .optional "primary_temperature" CoolingKind.decoder .linear
    <*> .optional "sub_temperature" CoolingKind.decoder .linear
    <*> .optional "n_threads" (.nat 64) 4
    <*> .optional "steps_per_optimizer_iteration" (.nat 64) 1000
    <*> .optional "n_iterations" (.nat 64) 100
    <*> .optional "iteration_timeout_ms" (.nat 64) 10000
    <*> .optional "no_progress_cancel_ms" (.nat 64) 1200000
    <*> .optional "seed" (.option seedDecoder) none
    <*> .optional "logic" RuleConfig.decoder {}

/-- The configuration that a text writes, if it makes sense. -/
def parse (text : String) : Except ConfigError SearchConfig := do
  let c ← (decoder.parse text).mapError .unreadable
  c.validate
  return c

end SearchConfig

end Timetable

import Timetable.Pins
import Timetable.Rule.Basic

/-!
# Rulebooks, and what they let happen

A `Rulebook` is an ordered list of rules together with the placements that are pinned.

* `Rulebook.validate` asks every rule about a start, first about the run and then about each of its
  periods.  A start that is where its section is pinned to has no local conflicts.
* `Rulebook.assign` places a start if there is nothing against it.
* `Rulebook.force` also places it if only scheduled starts are in the way: it takes these out first.

Neither changes the schedule unless the start is placed.
-/

set_option autoImplicit false

namespace Timetable

/-- The rules a schedule has to obey. -/
structure Rulebook where
  rules : List Rule := []
  pins : Pins := .none
  deriving Inhabited

namespace Rulebook

variable {p : Program} (book : Rulebook) (s : Schedule p)

/-- What the rules have against a run as a whole. -/
def startFindings (c : Start) : List Finding :=
  book.rules.flatMap fun r => (r.onStart s c).map fun o => ⟨r.name, .run c, o⟩

/-- What the rules have against one period of a run. -/
def presentFindings (m : Present) : List Finding :=
  book.rules.flatMap fun r => (r.onPresent s m).map fun o => ⟨r.name, .moment m, o⟩

/-- Asks all rules about a start. -/
def validate (c : Start) : Report :=
  .ofFindings c (book.pins.holds c)
    (book.startFindings s c ++ (c.presents p).flatMap (book.presentFindings s))

/-- Places a start if there is nothing against it. -/
def assign (c : Start) : Report × Schedule p :=
  let report := book.validate s c
  (report, if report.isValid then s.add c else s)

/-- Places a start, taking out the starts it clashes with.  The clashes are found once, before any
start is taken out.  If the start cannot be placed even so, nothing changes. -/
def force (c : Start) : Report × Schedule p :=
  let first := book.validate s c
  if first.isLocallyValid then
    let cleared := first.evictions.foldl Schedule.remove s
    let (second, placed) := book.assign cleared c
    (second, if second.isValid then placed else s)
  else (first, s)

/-! ## Loading -/

/-- The order in which starts are placed: the locked ones first, each group in the order of starts.
A start is locked if it is marked so or if it is where its section is pinned to. -/
def placementOrder (starts : List (Bool × Start)) : List Start :=
  let (locked, free) := starts.partition fun (marked, s) => marked || book.pins.holds s
  sorted (locked.map (·.2)) ++ sorted (free.map (·.2))

/-- Places starts one after the other; the first that cannot be placed is an error. -/
def placeAll : Schedule p → List Start → Except PlacementError (Schedule p)
  | s, [] => .ok s
  | s, c :: rest =>
    let (report, s) := book.assign s c
    if report.isValid then placeAll s rest
    else .error (.conflict c.sectionId c.periodId report.text)

/-- Places starts one after the other, leaving out those that cannot be placed. -/
def placeSome (s : Schedule p) (starts : List Start) : Schedule p :=
  starts.foldl (fun s c => (book.assign s c).2) s

/-- The schedule that a list of triples describes.  It is an error if a triple stands for no start
or cannot be placed after those that come before it in the placement order. -/
def load (p : Program) (triples : List Triple) : Except PlacementError (Schedule p) := do
  let starts ← triples.mapM fun t => (t.resolve p).map fun s => (t.locked, s)
  book.placeAll (.empty p) (book.placementOrder starts)

/-- The schedule that a list of triples describes, without the triples that stand for no start or
cannot be placed. -/
def loadLenient (p : Program) (triples : List Triple) : Except Fault (Schedule p) := do
  let starts ← triples.mapM fun t =>
    PlacementError.toOption ((t.resolve p).map fun s => (t.locked, s))
  return book.placeSome (.empty p) (book.placementOrder (starts.filterMap id))

/-! ## The schedule as a whole -/

/-- The triples of a schedule in the order of the sections, the pinned ones marked. -/
def triples : List Triple := s.starts.map fun c => c.triple (book.pins.holds c)

/-- Whether a schedule can be built up from nothing, start by start in the placement order. -/
def isCompletelyValid : Bool :=
  let starts := book.placementOrder (s.starts.map fun c => (false, c))
  (book.placeAll (.empty p) starts).toOption.isSome

end Rulebook

end Timetable

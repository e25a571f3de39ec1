import Timetable.Move.Basic
import Timetable.Numeric.Double
import Timetable.Rulebook

/-!
# Moves that place sections

Three moves take sections that are not placed and try to place some of them.

* `Move.placeValid` places them where nothing is in the way.
* `Move.placeForced` makes room for them if need be.
* `Move.fillRooms` does so too, but only starts them in periods in which a room is free.

How many sections are tried depends on the temperature: `batchSize`.
-/

set_option autoImplicit false

namespace Timetable

/-- How many of `n` things are taken at a temperature: the whole part of that share of `n`, but at
least one and at most all. -/
def batchSize (n : Nat) (temperature : Float) : Nat :=
  Nat.max 1 (Nat.min (wholePart (n.toFloat * clampUnit temperature)) (Nat.max n 1))

theorem one_le_batchSize (n : Nat) (temperature : Float) : 1 ≤ batchSize n temperature :=
  Nat.le_max_left _ _

theorem batchSize_le (n : Nat) (temperature : Float) : batchSize n temperature ≤ max n 1 :=
  Nat.max_le.2 ⟨Nat.le_max_right n 1, Nat.min_le_right _ _⟩

variable {G : Type} [RandomSource G]

/-- Draws a start for a section among its compatible rooms and periods, if it fits there.  If the
section has no compatible room nothing is drawn, and if it has no compatible period only the room
is. -/
def randomStart (p : Program) (id : SectionId) (rng : G) : Except Fault (Option Start × G) :=
  match RandomSource.choose rng (p.compatibleRooms id) with
  | (none, rng) => .ok (none, rng)
  | (some room, rng) =>
    match RandomSource.choose rng (p.compatiblePeriods id) with
    | (none, rng) => .ok (none, rng)
    | (some period, rng) =>
      (PlacementError.toOption (Start.make p period room id)).map fun start => (start, rng)

namespace Move

variable {p : Program}

/-- Tries a random start for each of some sections, one after the other. -/
def placeEach (place : Schedule p → Start → Schedule p) :
    List SectionId → Schedule p → G → Except Fault (Step G (Schedule p))
  | [], s, rng => .ok ⟨s, rng, 0⟩
  | id :: rest, s, rng => do
    let (start, rng) ← randomStart p id rng
    let s := (start.map (place s)).getD s
    placeEach place rest s rng

/-- Tries random starts for a random batch of the sections that are not placed. -/
def placeBatch (place : Schedule p → Start → Schedule p) : Move G (Schedule p) :=
  fun s temperature rng =>
    if s.unscheduled.isEmpty then .ok ⟨s, rng, 0⟩
    else
      let (ids, rng) := RandomSource.shuffle rng s.unscheduled
      placeEach place (ids.take (batchSize ids.length temperature)) s rng

/-- Places sections where nothing is in the way. -/
def placeValid (book : Rulebook) : Move G (Schedule p) :=
  placeBatch fun s c => (book.assign s c).2

/-- Places sections and takes out what is in the way. -/
def placeForced (book : Rulebook) : Move G (Schedule p) :=
  placeBatch fun s c => (book.force s c).2

/-- The rooms and periods in which a room is available and free, in the order of the program. -/
def freePlaces (s : Schedule p) : List (RoomId × PeriodId) :=
  (p.rooms.flatMap fun r => (p.roomPeriods r.id).map fun q => (r.id, q)).filter fun (r, q) =>
    (s.occurringAt? (p.slotOf q) r).isNone

/-- Forces sections into places, one into each. -/
def fillPlaces (book : Rulebook) :
    List (SectionId × RoomId × PeriodId) → Schedule p → Except Fault (Schedule p)
  | [], s => .ok s
  | (id, room, period) :: rest, s => do
    let start ← PlacementError.toOption (Start.make p period room id)
    fillPlaces book rest ((start.map fun c => (book.force s c).2).getD s)

/-- Places sections into free rooms and takes out what is in the way. -/
def fillRooms (book : Rulebook) : Move G (Schedule p) := fun s temperature rng =>
  if s.unscheduled.isEmpty then .ok ⟨s, rng, 0⟩
  else do
    let (ids, rng) := RandomSource.shuffle rng s.unscheduled
    let (places, rng) := RandomSource.shuffle rng (freePlaces s)
    let s ← fillPlaces book ((ids.zip places).take (batchSize ids.length temperature)) s
    return ⟨s, rng, 0⟩

end Move

end Timetable

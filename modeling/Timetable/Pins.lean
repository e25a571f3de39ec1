import Timetable.OrderedMap.Basic
import Timetable.Placement

/-!
# Pinned placements

A section may be pinned to a room and a period.  `Pins` holds at most one place for each section;
of two places given for one section the later one counts.
-/

set_option autoImplicit false

namespace Timetable

/-- The places sections are pinned to. -/
structure Pins where
  bySection : OrderedMap SectionId Triple
  deriving Inhabited

namespace Pins

/-- Nothing is pinned. -/
def none : Pins := ⟨.empty⟩

/-- The pins a list gives. -/
def ofList (triples : List Triple) : Pins := ⟨.ofList (triples.map fun t => (t.sectionId, t))⟩

variable (pins : Pins)

/-- The place a section is pinned to. -/
def find? (id : SectionId) : Option Triple := pins.bySection.get? id

/-- Whether nothing is pinned. -/
def isEmpty : Bool := pins.bySection.isEmpty

/-- The pins in the order of their sections. -/
def toList : List Triple := pins.bySection.values

/-- Whether a pin names the room and the first period of a start. -/
def allows (t : Triple) (s : Start) : Bool := t.roomId = s.roomId && t.periodId = s.periodId

/-- Whether a start is where its section is pinned to. -/
def holds (s : Start) : Bool :=
  match pins.find? s.sectionId with
  | .none => false
  | some t => allows t s

end Pins

end Timetable

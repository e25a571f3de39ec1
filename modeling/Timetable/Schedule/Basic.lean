import Timetable.OrderedMap.Basic
import Timetable.Placement

/-!
# Schedules

A `Schedule p` says where and when the sections of the program `p` are held, as far as they are.  It
is kept in two indexes that agree: for every room the sections by the slot they start in, and for
every section its start.

Only starts are stored.  What is going on in a room at a slot is worked out: it is the section that
started last in the block, if its run reaches that far.  That runs do not overlap is for the rules
to see to, not for the indexes.
-/

set_option autoImplicit false

namespace Timetable

/-- The sections of a program that are placed. -/
structure Schedule (p : Program) where
  /-- For every room the sections by the slots they start in. -/
  rooms : OrderedMap RoomId (OrderedMap Slot SectionId)
  /-- For every section its start. -/
  sections : OrderedMap SectionId Start
  deriving Inhabited

namespace Schedule

variable {p : Program}

/-- The schedule with nothing placed; every room has an empty index. -/
def empty (p : Program) : Schedule p where
  rooms := .ofList (p.rooms.map fun r => (r.id, .empty))
  sections := .empty

variable (s : Schedule p)

/-! ## What is placed -/

/-- Where a section is placed, if anywhere. -/
def startOf? (id : SectionId) : Option Start := s.sections.get? id

/-- Whether a section is placed. -/
def isScheduled (id : SectionId) : Bool := s.sections.contains id

/-- All starts in the order of their sections. -/
def starts : List Start := s.sections.values

/-- The start at a position in the order of the sections. -/
def nthStart? (i : Nat) : Option Start := (s.sections.nth? i).map Prod.snd

/-- The number of sections that are placed. -/
def count : Nat := s.sections.size

/-- Whether nothing is placed. -/
def isEmpty : Bool := s.sections.isEmpty

/-- The sections that are placed, in order. -/
def scheduled : List SectionId := s.sections.keys

/-- The sections that are not placed, in the order of the program. -/
def unscheduled : List SectionId :=
  (p.sections.map (·.id)).filter fun id => !s.sections.contains id

/-! ## What happens in a room -/

/-- The starts in a room in the order of time. -/
def startsIn (room : RoomId) : List Start :=
  match s.rooms.get? room with
  | none => []
  | some index => index.values.filterMap s.startOf?

/-- The section that starts in a room at a slot. -/
def startingAt? (slot : Slot) (room : RoomId) : Option Start := do
  let id ← (← s.rooms.get? room).get? slot
  s.startOf? id

/-- The section that starts last in a room up to a slot, within the block of the slot. -/
def startingBefore? (room : RoomId) (slot : Slot) : Option Start := do
  let (start, id) ← (← s.rooms.get? room).floor? slot
  if start.blockId = slot.blockId then s.startOf? id else none

/-- The section that is in session in a room at a slot. -/
def occurringAt? (slot : Slot) (room : RoomId) : Option Present := do
  (← s.startingBefore? room slot).presentAt? p slot

/-- Everything that is in session at a slot, in the order of the rooms. -/
def occurring (slot : Slot) : List Present :=
  s.rooms.keys.filterMap fun room => s.occurringAt? slot room

/-- The number of periods in which a room is in use, and the number of entries in its list of
available periods. -/
def usage (room : RoomId) : Nat × Nat :=
  (total ((s.startsIn room).map (·.length)), (p.room room).periodIds.length)

/-- The share of a room's available periods in which it is in use; none if it has no such period.  The
periods in which it is in use are counted in a machine word. -/
def utilization? (room : RoomId) : Except Fault (Option Float) := do
  let available := (p.room room).periodIds.length
  if available = 0 then return none
  let used ← totalWithin 32 ((s.startsIn room).map (·.length))
  return some (used.toFloat / available.toFloat)

/-! ## Changes -/

/-- The schedule with a start added to both indexes. -/
def add (start : Start) : Schedule p where
  rooms :=
    let index := (s.rooms.get? start.roomId).getD .empty
    s.rooms.insert start.roomId (index.insert start.slot start.sectionId)
  sections := s.sections.insert start.sectionId start

/-- The schedule with a start taken out of both indexes. -/
def remove (start : Start) : Schedule p where
  rooms :=
    match s.rooms.get? start.roomId with
    | none => s.rooms
    | some index => s.rooms.insert start.roomId (index.erase start.slot)
  sections := s.sections.erase start.sectionId

/-- Takes out the section that starts in a room at a slot, and says which it was. -/
def removeAt (slot : Slot) (room : RoomId) : Option Start × Schedule p :=
  match s.startingAt? slot room with
  | none => (none, s)
  | some start => (some start, s.remove start)

/-- Takes out a section wherever it is, and says where it was. -/
def removeSection (id : SectionId) : Option Start × Schedule p :=
  match s.startOf? id with
  | none => (none, s)
  | some start => (some start, s.remove start)

end Schedule

end Timetable

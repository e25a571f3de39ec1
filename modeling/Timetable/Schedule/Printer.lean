import Timetable.Schedule.Basic
import Timetable.Text.Quoted

/-!
# The text of a schedule

A schedule is written out in full for people who look for errors: the name of the program and every
start with all its parts, each part under its name.
-/

set_option autoImplicit false

namespace Timetable

/-- A record is written as its name and, between braces, its fields. -/
def recordText (name : String) (fields : List (String × String)) : String :=
  let parts := ", ".intercalate (fields.map fun f => f.1 ++ ": " ++ f.2)
  name ++ " \x7b " ++ parts ++ " \x7d"

/-- An identifier is written as the name of its type and, in brackets, its number. -/
def idText {k : Kind} (name : String) (id : Id k) : String := s!"{name}({id.val})"

/-- The full text of a slot. -/
def Slot.fullText (s : Slot) : String :=
  recordText "PeriodSlot"
    [("block", idText "TimeBlockId" s.blockId), ("index", toString s.index)]

/-- The full text of a start. -/
def Start.fullText (s : Start) : String :=
  recordText "StartAssignment"
    [("slot", s.slot.fullText), ("room", idText "RoomId" s.roomId),
      ("section", idText "SectionId" s.sectionId), ("period", idText "ClassPeriodId" s.periodId),
      ("length", toString s.length)]

/-- The full text of a schedule. -/
def Schedule.fullText {p : Program} (s : Schedule p) : String :=
  recordText "Schedule"
    [("program", Text.quote p.name),
      ("assignments", "[" ++ ", ".intercalate (s.starts.map (·.fullText)) ++ "]")]

end Timetable

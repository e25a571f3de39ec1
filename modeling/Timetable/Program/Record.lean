import Timetable.Venue
import Timetable.Offering

/-!
# The description of a program

A `ProgramRecord` lists the entities of a program, each with its own identifier.  Entities refer to
each other by identifier only; whether the references can be followed is checked in
`Timetable.Program.Integrity`.
-/

set_option autoImplicit false

namespace Timetable

/-- The description of a program. -/
structure ProgramRecord where
  name : String := ""
  teachers : List Teacher := []
  rooms : List Room := []
  buildings : List Building := []
  courses : List Course := []
  sections : List Section := []
  blocks : List BlockRecord := []
  properties : List RoomProperty := []
  resources : List Resource := []
  groups : List TeacherGroup := []
  deriving Repr, Inhabited

namespace ProgramRecord

/-- The records of all periods, block by block. -/
def periodRecords (r : ProgramRecord) : List PeriodRecord := r.blocks.flatMap (·.periods)

/-- The numbers of the entities of a kind, in the order in which they are listed. -/
def idsOf (r : ProgramRecord) : Kind → List Nat
  | .teacher => r.teachers.map (·.id.val)
  | .room => r.rooms.map (·.id.val)
  | .building => r.buildings.map (·.id.val)
  | .course => r.courses.map (·.id.val)
  | .courseSection => r.sections.map (·.id.val)
  | .block => r.blocks.map (·.id.val)
  | .period => r.periodRecords.map (·.id.val)
  | .property => r.properties.map (·.id.val)
  | .resource => r.resources.map (·.id.val)
  | .teacherGroup => r.groups.map (·.id.val)

end ProgramRecord

end Timetable

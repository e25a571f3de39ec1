import Timetable.Directory
import Timetable.Distinct
import Timetable.Program.Integrity

/-!
# Programs

A `Program` is a description that was accepted.  It answers questions about its entities and how
they belong together.

Look-ups come in two forms.  `Program.room?` and its like say whether the entity exists.
`Program.room` and its like answer with a blank entity where there is none; they are for identifiers
that are known to be part of the program, as all those found in it are.
-/

set_option autoImplicit false

namespace Timetable

/-- A program: an accepted description. -/
structure Program where
  record : ProgramRecord
  /-- Nothing is wrong with the description. -/
  accepted : record.check = .ok ()

instance : Inhabited Program := ⟨{}, rfl⟩

namespace Program

/-- Makes a program of a description, or names the first thing that is wrong with it. -/
def ofRecord (r : ProgramRecord) : Except Defect Program :=
  match h : r.check with
  | .ok () => .ok ⟨r, h⟩
  | .error d => .error d

variable (p : Program)

/-! ## Entities -/

def name : String := p.record.name
def teachers : List Teacher := p.record.teachers
def rooms : List Room := p.record.rooms
def buildings : List Building := p.record.buildings
def courses : List Course := p.record.courses
def sections : List Section := p.record.sections
def properties : List RoomProperty := p.record.properties
def resources : List Resource := p.record.resources
def groups : List TeacherGroup := p.record.groups

/-- The blocks in the order of the description. -/
def blocks : List Block := p.record.blocks.map (·.block)

/-- The periods, block by block. -/
def periods : List Period := p.record.blocks.flatMap (·.placedPeriods)

def teacher? (id : TeacherId) : Option Teacher := p.teachers.find? (·.id = id)
def room? (id : RoomId) : Option Room := p.rooms.find? (·.id = id)
def building? (id : BuildingId) : Option Building := p.buildings.find? (·.id = id)
def course? (id : CourseId) : Option Course := p.courses.find? (·.id = id)
def section? (id : SectionId) : Option Section := p.sections.find? (·.id = id)
def block? (id : BlockId) : Option Block := p.blocks.find? (·.id = id)
def period? (id : PeriodId) : Option Period := p.periods.find? (·.id = id)
def property? (id : PropertyId) : Option RoomProperty := p.properties.find? (·.id = id)
def resource? (id : ResourceId) : Option Resource := p.resources.find? (·.id = id)
def group? (id : GroupId) : Option TeacherGroup := p.groups.find? (·.id = id)

/-- The teacher with an identifier, blank if there is none. -/
def teacher (id : TeacherId) : Teacher := (p.teacher? id).getD default
/-- The room with an identifier, blank if there is none. -/
def room (id : RoomId) : Room := (p.room? id).getD default
/-- The course with an identifier, blank if there is none. -/
def course (id : CourseId) : Course := (p.course? id).getD default
/-- The section with an identifier, blank if there is none. -/
def sectionOf (id : SectionId) : Section := (p.section? id).getD default
/-- The block with an identifier, blank if there is none. -/
def block (id : BlockId) : Block := (p.block? id).getD default
/-- The period with an identifier, blank if there is none. -/
def period (id : PeriodId) : Period := (p.period? id).getD default
/-- The resource with an identifier, blank if there is none. -/
def resource (id : ResourceId) : Resource := (p.resource? id).getD default
/-- The teacher group with an identifier, blank if there is none. -/
def group (id : GroupId) : TeacherGroup := (p.group? id).getD default

/-! ## What belongs together -/

/-- The course of a section. -/
def courseOf (id : SectionId) : Course := p.course (p.sectionOf id).courseId

/-- The teachers of a section: those of its course. -/
def teachersOf (id : SectionId) : List TeacherId := (p.courseOf id).teacherIds

/-- Whether two sections have a teacher in common. -/
def shareTeacher (a b : SectionId) : Bool :=
  (p.teachersOf a).any fun t => (p.teachersOf b).contains t

/-- The sections under their courses. -/
def sectionsByCourse : Directory CourseId SectionId :=
  .ofItems (fun s => [s.courseId]) (·.id) p.sections

/-- The sections under the teachers of their courses. -/
def sectionsByTeacher : Directory TeacherId SectionId :=
  .ofItems (fun s => (p.course s.courseId).teacherIds) (·.id) p.sections

/-- The groups under their teachers. -/
def groupsByTeacher : Directory TeacherId GroupId := .ofItems (·.teacherIds) (·.id) p.groups

/-- The sections of a course, in the order of the program. -/
def sectionsOfCourse (id : CourseId) : List SectionId := p.sectionsByCourse.under id

/-- The sections of a teacher in the order of the program, each as often as its course lists the
teacher. -/
def sectionsOfTeacher (id : TeacherId) : List SectionId := p.sectionsByTeacher.under id

/-- The groups of a teacher in the order of the program, each as often as it lists the teacher. -/
def groupsOf (id : TeacherId) : List GroupId := p.groupsByTeacher.under id

/-- The properties of a room that reserve it. -/
def bindingProperties (id : RoomId) : List PropertyId :=
  (p.room id).propertyIds.filter fun q => ((p.property? q).map (·.binding)).getD false

/-- The resources of a room that reserve it. -/
def bindingResources (id : RoomId) : List ResourceId :=
  (p.room id).resourceIds.filter fun r => ((p.resource? r).map (·.binding)).getD false

/-! ## The timeline -/

/-- The period at a slot, if the block is that long. -/
def periodAt? (slot : Slot) : Option PeriodId :=
  (p.block? slot.blockId).bind fun b => b.periodIds[slot.index]?

/-- The slot of a period. -/
def slotOf (id : PeriodId) : Slot := (p.period id).slot

/-- So many periods from a period on, if its block has them. -/
def tail? (id : PeriodId) (count : Nat) : Option (List PeriodId) :=
  let slot := p.slotOf id
  let ids := (p.block slot.blockId).periodIds
  if slot.index + count ≤ ids.length then some ((ids.drop slot.index).take count) else none

/-- The lunch periods of a block in the order of time. -/
def lunchPeriods (id : BlockId) : List Period :=
  ((p.block id).periodIds.map p.period).filter (·.isLunch)

/-! ## Availability -/

/-- The periods in which a teacher can teach, in the order of their numbers. -/
def teacherPeriods (id : TeacherId) : List PeriodId := distinct (p.teacher id).periodIds

/-- The periods in which a room may be used, in the order of their numbers. -/
def roomPeriods (id : RoomId) : List PeriodId := distinct (p.room id).periodIds

/-- The periods in which all teachers of a section can teach, in the order of their numbers.  For a
section without teachers these are all periods. -/
def compatiblePeriods (id : SectionId) : List PeriodId :=
  (distinct (p.periods.map (·.id))).filter fun q =>
    (p.teachersOf id).all fun t => (p.teacher t).periodIds.contains q

/-- Whether a room can host a section at all: it seats the students that are expected, has every
required property and is reserved only by properties that are required. -/
def isCompatible (id : SectionId) (roomId : RoomId) : Bool :=
  let course := p.courseOf id
  let room := p.room roomId
  decide (course.estimatedSize ≤ room.capacity) &&
  course.propertyIds.all (room.propertyIds.contains ·) &&
  (p.bindingProperties roomId).all (course.propertyIds.contains ·)

/-- The rooms that can host a section, in the order of the program. -/
def compatibleRooms (id : SectionId) : List RoomId :=
  (p.rooms.map (·.id)).filter (p.isCompatible id)

end Program

end Timetable

import Timetable.Program.Basic

/-!
# Questions about a program

A `Query` is a question, an `Answer` what is said to it.  `Program.answer` answers every question
about entities the program has; one about an entity it does not have is a fault, unless the question
was whether there is such an entity or what refers to it.
-/

set_option autoImplicit false

namespace Timetable

/-- An entity of any kind. -/
inductive Entity
  | teacher (t : Teacher)
  | room (r : Room)
  | building (b : Building)
  | course (c : Course)
  | courseSection (s : Section)
  | block (b : Block)
  | period (p : Period)
  | property (p : RoomProperty)
  | resource (r : Resource)
  | teacherGroup (g : TeacherGroup)
  deriving Repr, Inhabited

/-- Who or what is available in some periods only. -/
inductive Owner
  | teacher (id : TeacherId)
  | room (id : RoomId)
  deriving DecidableEq, Repr, Inhabited

/-- A question about a program. -/
inductive Query
  | name
  /-- The entity with an identifier, if there is one. -/
  | find (kind : Kind) (id : Nat)
  /-- The entity with an identifier, which has to be there. -/
  | demand (kind : Kind) (id : Nat)
  | all (kind : Kind)
  | courseOf (id : SectionId)
  | teachersOf (id : SectionId)
  | prerequisites (id : SectionId)
  | requiredProperties (id : SectionId)
  | requiredResources (id : SectionId)
  | compatiblePeriods (id : SectionId)
  | compatibleRooms (id : SectionId)
  | isCompatible (id : SectionId) (room : RoomId)
  | roomProperties (id : RoomId)
  | bindingProperties (id : RoomId)
  | roomResources (id : RoomId)
  | bindingResources (id : RoomId)
  | sectionsOfCourse (id : CourseId)
  | sectionsOfTeacher (id : TeacherId)
  | groupsOf (id : TeacherId)
  | blockLength (id : BlockId)
  | availablePeriods (owner : Owner)
  | periodAt (slot : Slot)
  | slotOf (id : PeriodId)
  | tail (id : PeriodId) (count : Nat)
  | lunchPeriods (id : BlockId)
  deriving DecidableEq, Repr, Inhabited

/-- What is said to a question. -/
inductive Answer
  | text (s : String)
  | entity (e : Option Entity)
  | entities (es : List Entity)
  | number (n : Option Nat)
  | numbers (ns : List Nat)
  /-- Some numbers, or that there are none to give. -/
  | perhaps (ns : Option (List Nat))
  | truth (b : Bool)
  | length (n : Nat)
  | slot (s : Slot)
  deriving Repr, Inhabited

namespace Program

variable (p : Program)

/-- The entity of a kind with a number. -/
def entity? (kind : Kind) (id : Nat) : Option Entity :=
  match kind with
  | .teacher => (p.teacher? ⟨id⟩).map .teacher
  | .room => (p.room? ⟨id⟩).map .room
  | .building => (p.building? ⟨id⟩).map .building
  | .course => (p.course? ⟨id⟩).map .course
  | .courseSection => (p.section? ⟨id⟩).map .courseSection
  | .block => (p.block? ⟨id⟩).map .block
  | .period => (p.period? ⟨id⟩).map .period
  | .property => (p.property? ⟨id⟩).map .property
  | .resource => (p.resource? ⟨id⟩).map .resource
  | .teacherGroup => (p.group? ⟨id⟩).map .teacherGroup

/-- The entities of a kind in the order of the program. -/
def entities : Kind → List Entity
  | .teacher => p.teachers.map .teacher
  | .room => p.rooms.map .room
  | .building => p.buildings.map .building
  | .course => p.courses.map .course
  | .courseSection => p.sections.map .courseSection
  | .block => p.blocks.map .block
  | .period => p.periods.map .period
  | .property => p.properties.map .property
  | .resource => p.resources.map .resource
  | .teacherGroup => p.groups.map .teacherGroup

/-- The entity with an identifier, which has to be there. -/
def demand (kind : Kind) (id : Nat) : Except Fault Entity :=
  match p.entity? kind id with
  | some e => .ok e
  | none => .error (.absent kind id p.name)

/-- Goes on with a value if the program has an entity. -/
def having {α : Type} {kind : Kind} (id : Id kind) (value : α) : Except Fault α :=
  (p.demand kind id.val).map fun _ => value

/-- Answers a question. -/
def answer : Query → Except Fault Answer
  | .name => .ok (.text p.name)
  | .find kind id => .ok (.entity (p.entity? kind id))
  | .demand kind id => (p.demand kind id).map fun e => .entity (some e)
  | .all kind => .ok (.entities (p.entities kind))
  | .courseOf id => p.having id (.number (some (p.courseOf id).id.val))
  | .teachersOf id => p.having id (numbers (p.teachersOf id))
  | .prerequisites id => p.having id (numbers (p.courseOf id).prerequisiteIds)
  | .requiredProperties id => p.having id (numbers (p.courseOf id).propertyIds)
  | .requiredResources id => p.having id (numbers (p.courseOf id).resourceIds)
  | .compatiblePeriods id => p.having id (numbers (p.compatiblePeriods id))
  | .compatibleRooms id => p.having id (numbers (p.compatibleRooms id))
  | .isCompatible id room => do
    let _ ← p.demand .courseSection id.val
    p.having room (.truth (p.isCompatible id room))
  | .roomProperties id => p.having id (numbers (p.room id).propertyIds)
  | .bindingProperties id => p.having id (numbers (p.bindingProperties id))
  | .roomResources id => p.having id (numbers (p.room id).resourceIds)
  | .bindingResources id => p.having id (numbers (p.bindingResources id))
  | .sectionsOfCourse id => .ok (numbers (p.sectionsOfCourse id))
  | .sectionsOfTeacher id => .ok (numbers (p.sectionsOfTeacher id))
  | .groupsOf id => .ok (numbers (p.groupsOf id))
  | .blockLength id => p.having id (.length (p.block id).length)
  | .availablePeriods (.teacher id) => p.having id (numbers (p.teacherPeriods id))
  | .availablePeriods (.room id) => p.having id (numbers (p.roomPeriods id))
  | .periodAt slot => .ok (.number ((p.periodAt? slot).map (·.val)))
  | .slotOf id => p.having id (.slot (p.slotOf id))
  | .tail id count => p.having id (.perhaps ((p.tail? id count).map (·.map (·.val))))
  | .lunchPeriods id => p.having id (numbers ((p.lunchPeriods id).map (·.id)))
where
  /-- The answer that lists identifiers. -/
  numbers {kind : Kind} (ids : List (Id kind)) : Answer := .numbers (ids.map (·.val))

end Program

end Timetable

import Timetable.Program.Record
import Timetable.Program.Prerequisites

/-!
# Integrity of a program's description

A description can be made into a program if identifiers are unique within their kind, references
lead to entities that are listed, sizes and lengths make sense and no course is a prerequisite of
itself, however indirectly.

`ProgramRecord.defects` lists what is wrong, in a fixed order; `ProgramRecord.check` reports the
first of it.  The order is:

1. repeated identifiers, kind by kind (`Kind.all`), periods being compared across all blocks;
2. blocks without periods;
3. references of teachers and of rooms;
4. references and sizes of courses;
5. references and lengths of sections;
6. references of teacher groups;
7. circular prerequisites.
-/

set_option autoImplicit false

namespace Timetable

/-- A defect of a program's description. -/
inductive Defect
  | duplicateId (kind : Kind) (id : Nat)
  | danglingReference (source : Kind) (sourceId : Nat) (target : Kind) (targetId : Nat)
  | estimateAboveMaximum (course : CourseId) (estimated maximum : Nat)
  | emptySection (id : SectionId)
  | emptyBlock (id : BlockId)
  | circularPrerequisites (course : CourseId)
  deriving DecidableEq, Repr, Inhabited

/-- The text of a defect. -/
def Defect.message : Defect → String
  | duplicateId kind id =>
    let label := kind.label
    s!"duplicate {label} id {id}"
  | danglingReference source sourceId target targetId =>
    let sourceLabel := source.label
    let targetLabel := target.label
    s!"{sourceLabel} {sourceId} references unknown {targetLabel} {targetId}"
  | estimateAboveMaximum course estimated maximum =>
    s!"{course} estimates {estimated} students but caps at {maximum}"
  | emptySection id => s!"{id} has a period length of zero"
  | emptyBlock id => s!"{id} has no periods"
  | circularPrerequisites course => s!"prerequisites of {course} form a cycle"

namespace ProgramRecord

/-- The numbers of a list that also occur before their place. -/
def repeated : (earlier : List Nat) → List Nat → List Nat
  | _, [] => []
  | earlier, n :: rest =>
    if n ∈ earlier then n :: repeated earlier rest else repeated (n :: earlier) rest

/-- The identifiers of a kind that are given twice. -/
def duplicates (r : ProgramRecord) (kind : Kind) : List Defect :=
  (repeated [] (r.idsOf kind)).map (.duplicateId kind)

/-- The references of one entity to a kind that lead nowhere. -/
def dangling (r : ProgramRecord) {source target : Kind} (id : Id source)
    (references : List (Id target)) : List Defect :=
  (references.filter fun t => !(r.idsOf target).contains t.val).map fun t =>
    .danglingReference source id.val target t.val

/-- What is wrong with a block by itself. -/
def blockDefects (b : BlockRecord) : List Defect :=
  if b.periods.isEmpty then [.emptyBlock b.id] else []

/-- What is wrong with a teacher. -/
def teacherDefects (r : ProgramRecord) (t : Teacher) : List Defect :=
  r.dangling t.id t.periodIds

/-- What is wrong with a room. -/
def roomDefects (r : ProgramRecord) (room : Room) : List Defect :=
  r.dangling room.id room.periodIds ++
  r.dangling room.id room.propertyIds ++
  r.dangling room.id room.resourceIds ++
  r.dangling room.id room.buildingId.toList

/-- What is wrong with a course by itself. -/
def courseDefects (r : ProgramRecord) (c : Course) : List Defect :=
  r.dangling c.id c.teacherIds ++
  r.dangling c.id c.propertyIds ++
  r.dangling c.id c.resourceIds ++
  r.dangling c.id c.prerequisiteIds ++
  r.dangling c.id c.preferredRoomIds ++
  if c.estimatedSize > c.maxSize then [.estimateAboveMaximum c.id c.estimatedSize c.maxSize]
  else []

/-- What is wrong with a section. -/
def sectionDefects (r : ProgramRecord) (s : Section) : List Defect :=
  r.dangling s.id [s.courseId] ++ if s.length = 0 then [.emptySection s.id] else []

/-- What is wrong with a teacher group. -/
def groupDefects (r : ProgramRecord) (g : TeacherGroup) : List Defect :=
  r.dangling g.id g.teacherIds

/-- Everything that is wrong with a description, in the order in which it is checked.  Of circular
prerequisites only the first course is named. -/
def defects (r : ProgramRecord) : List Defect :=
  Kind.all.flatMap r.duplicates ++
  r.blocks.flatMap blockDefects ++
  r.teachers.flatMap r.teacherDefects ++
  r.rooms.flatMap r.roomDefects ++
  r.courses.flatMap r.courseDefects ++
  r.sections.flatMap r.sectionDefects ++
  r.groups.flatMap r.groupDefects ++
  (firstCircular? r.courses).toList.map .circularPrerequisites

/-- Accepts a description, or names the first thing that is wrong with it. -/
def check (r : ProgramRecord) : Except Defect Unit :=
  match r.defects with
  | [] => .ok ()
  | d :: _ => .error d

/-- A description is accepted if nothing is wrong with it. -/
theorem check_eq_ok_iff {r : ProgramRecord} : r.check = .ok () ↔ r.defects = [] := by
  rw [check]
  split <;> simp_all

end ProgramRecord

end Timetable

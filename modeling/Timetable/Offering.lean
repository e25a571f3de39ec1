import Timetable.Calendar

/-!
# Courses and their teachers

A course is taught by all its teachers together and may be held as several sections.  The section
is what a schedule places.
-/

set_option autoImplicit false

namespace Timetable

/-- A teacher and the periods in which they can teach. -/
structure Teacher where
  id : TeacherId
  name : String := ""
  periodIds : List PeriodId := []
  deriving DecidableEq, Repr, Inhabited

/-- A group of teachers of whom only so many may teach at once.  A section with two members of the
group counts twice. -/
structure TeacherGroup where
  id : GroupId
  name : String := ""
  teacherIds : List TeacherId
  cap : Nat
  deriving DecidableEq, Repr, Inhabited

/-- A course. -/
structure Course where
  id : CourseId
  title : String := ""
  /-- The number of students expected in each section. -/
  estimatedSize : Nat
  /-- The number of students a section may have at most. -/
  maxSize : Nat
  /-- The teachers of every section. -/
  teacherIds : List TeacherId
  /-- The properties the room of every section has to have. -/
  propertyIds : List PropertyId := []
  /-- The equipment every section needs. -/
  resourceIds : List ResourceId := []
  /-- The courses of which a section has to be over before one of this course starts. -/
  prerequisiteIds : List CourseId := []
  /-- The grades the course is for; every grade if there is no range. -/
  grades : Option GradeRange := none
  /-- The rooms the teachers would like best. -/
  preferredRoomIds : List RoomId := []
  deriving DecidableEq, Repr, Inhabited

/-- One section of a course. -/
structure Section where
  id : SectionId
  courseId : CourseId
  /-- The number of consecutive periods the section runs for. -/
  length : Nat
  deriving DecidableEq, Repr, Inhabited

end Timetable

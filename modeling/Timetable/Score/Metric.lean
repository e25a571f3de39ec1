import Timetable.Numeric.Double
import Timetable.Rule.Timing

/-!
# What is measured of a schedule

Counts are natural numbers; only attendance and the fit of rooms are real quantities.  A `Metric`
names a quantity that a score can be made of, oriented so that more is better; `Summary` collects
the quantities themselves.
-/

set_option autoImplicit false

namespace Timetable

namespace Schedule

variable {p : Program} (s : Schedule p)

/-- The number of courses with a section placed. -/
def distinctCourses : Nat :=
  (distinct (s.scheduled.map fun id => (p.sectionOf id).courseId)).length

/-- The teachers of sections that are placed. -/
def activeTeachers : List TeacherId := distinct (s.scheduled.flatMap p.teachersOf)

/-- The number of periods in which a section is held, over all sections, in a machine word. -/
def classHours : Except Fault Nat := totalWithin 32 (s.starts.map (·.length))

/-- The hours of all sections, each times the students it expects. -/
def studentHours : Float :=
  floatSum (s.starts.map fun c =>
    (p.courseOf c.sectionId).estimatedSize.toFloat * c.length.toFloat)

/-! ## Moves between rooms -/

/-- The starts a teacher teaches in the order of time, each as often as its course lists the
teacher. -/
def startsOf (teacher : TeacherId) : List Start :=
  sorted (s.starts.flatMap fun c =>
    List.replicate ((p.teachersOf c.sectionId).count teacher) c)

/-- Whether going from one room to another means moving: the buildings differ, or the rooms if the
building of one of them is not known. -/
def isMove (p : Program) (a b : RoomId) : Bool :=
  match (p.room a).buildingId, (p.room b).buildingId with
  | some x, some y => x ≠ y
  | _, _ => a ≠ b

/-- The number of neighbours in a list of starts of which the second begins where the first ends,
in another place. -/
def countMoves (p : Program) : List Start → Nat
  | a :: b :: rest =>
    (if a.stop = b.slot && isMove p a.roomId b.roomId then 1 else 0) + countMoves p (b :: rest)
  | _ => 0

/-- How often a teacher has to move between two classes without a break. -/
def backToBackMoves : Nat := total (s.activeTeachers.map fun t => countMoves p (s.startsOf t))

/-! ## Attendance -/

/-- The number of students that the sections in session in a period have at most. -/
def seatsTaken (id : PeriodId) : Nat :=
  total (s.starts.map fun c =>
    (p.courseOf c.sectionId).maxSize * ((c.presents p).filter (·.periodId = id)).length)

/-- The same, over all periods. -/
def seatHours : Nat :=
  total (s.starts.map fun c => (p.courseOf c.sectionId).maxSize * c.length)

/-- How far the attendance of the periods is from the share expected of each, summed up.  Periods of
which nothing is expected do not count. -/
def attendanceDeviation : Float :=
  if s.seatHours = 0 || p.periods.isEmpty then 0.0
  else
    let perPeriod := s.seatHours.toFloat / p.periods.length.toFloat
    floatSum ((p.periods.filter (·.attendance > 0.0)).map fun q =>
      ((s.seatsTaken q.id).toFloat / (q.attendance * perPeriod) - 1.0).abs)

/-! ## Rooms -/

/-- The number of available periods in which a room is not used. -/
def unusedPeriods (room : RoomId) : Nat := (p.roomPeriods room).length - (s.usage room).1

/-- The number of pairs of a room and a period in which the room is available and not used. -/
def unusedRoomPeriods : Nat := total (p.rooms.map fun r => s.unusedPeriods r.id)

/-- The number of sections that are in a room their course prefers. -/
def inPreferredRoom : Nat :=
  (s.starts.filter fun c => (p.courseOf c.sectionId).preferredRoomIds.contains c.roomId).length

/-- The seats that are missing or left over, as a share of all seats of the room, summed up over the
sections. -/
def roomMisfit : Float :=
  floatSum (s.starts.map fun c =>
    let seats := (p.room c.roomId).capacity
    if seats = 0 then 0.0
    else
      (seats.toFloat - (p.courseOf c.sectionId).maxSize.toFloat).abs / seats.toFloat)

/-! ## Order -/

/-- The number of pairs of a section that is placed and a prerequisite some section of which is
over when it starts. -/
def prerequisitesInOrder : Nat :=
  total (s.starts.map fun c =>
    ((p.courseOf c.sectionId).prerequisiteIds.filter fun course =>
      Rule.endsBefore s course c.slot).length)

end Schedule

/-! ## Metrics -/

/-- A quantity that a score can be made of. -/
inductive Metric
  | sectionsScheduled
  | distinctCoursesScheduled
  | teachersWithClassesScheduled
  | classHoursScheduled
  | studentClassHoursScheduled
  | backToBackClasses
  | globalAttendanceLevels
  | unusedRooms
  | preferredRooms
  | roomSizeFit
  | prerequisiteOrdering
  deriving DecidableEq, Repr, Inhabited

namespace Metric

/-- All metrics. -/
def all : List Metric :=
  [sectionsScheduled, distinctCoursesScheduled, teachersWithClassesScheduled,
    classHoursScheduled, studentClassHoursScheduled, backToBackClasses, globalAttendanceLevels,
    unusedRooms, preferredRooms, roomSizeFit, prerequisiteOrdering]

/-- The name of a metric in configurations. -/
def name : Metric → String
  | sectionsScheduled => "SECTIONS_SCHEDULED"
  | distinctCoursesScheduled => "DISTINCT_COURSES_SCHEDULED"
  | teachersWithClassesScheduled => "TEACHERS_WITH_CLASSES_SCHEDULED"
  | classHoursScheduled => "CLASS_HOURS_SCHEDULED"
  | studentClassHoursScheduled => "STUDENT_CLASS_HOURS_SCHEDULED"
  | backToBackClasses => "BACK_TO_BACK_CLASSES"
  | globalAttendanceLevels => "GLOBAL_ATTENDANCE_LEVELS"
  | unusedRooms => "UNUSED_ROOMS"
  | preferredRooms => "PREFERRED_ROOMS"
  | roomSizeFit => "ROOM_SIZE_FIT"
  | prerequisiteOrdering => "PREREQUISITE_ORDERING"

/-- The value of a metric.  What is bad counts negatively. -/
def evaluate {p : Program} (s : Schedule p) : Metric → Float
  | sectionsScheduled => s.count.toFloat
  | distinctCoursesScheduled => s.distinctCourses.toFloat
  | teachersWithClassesScheduled => s.activeTeachers.length.toFloat
  | classHoursScheduled => floatSum (s.starts.map (·.length.toFloat))
  | studentClassHoursScheduled => s.studentHours
  | backToBackClasses => -s.backToBackMoves.toFloat
  | globalAttendanceLevels => -s.attendanceDeviation
  | unusedRooms => s.unusedRoomPeriods.toFloat
  | preferredRooms => s.inPreferredRoom.toFloat
  | roomSizeFit => -s.roomMisfit
  | prerequisiteOrdering => s.prerequisitesInOrder.toFloat

end Metric

/-- The quality of a schedule at a glance. -/
structure Summary where
  sectionsScheduled : Nat
  sectionsUnscheduled : Nat
  distinctCourses : Nat
  teachersTeaching : Nat
  classHours : Nat
  studentClassHours : Float
  backToBackMoves : Nat
  attendanceDeviation : Float
  unusedRoomPeriods : Nat
  deriving Repr, Inhabited

/-- The summary of a schedule. -/
def Schedule.summary {p : Program} (s : Schedule p) : Except Fault Summary := do
  return {
    sectionsScheduled := s.count
    sectionsUnscheduled := s.unscheduled.length
    distinctCourses := s.distinctCourses
    teachersTeaching := s.activeTeachers.length
    classHours := ← s.classHours
    studentClassHours := s.studentHours
    backToBackMoves := s.backToBackMoves
    attendanceDeviation := s.attendanceDeviation
    unusedRoomPeriods := s.unusedRoomPeriods }

/-- A summary is given up only if the class hours do not fit their machine word. -/
theorem Schedule.summary_eq_error_iff {p : Program} {s : Schedule p} {f : Fault} :
    s.summary = .error f ↔
      f = .overflow ∧ wordSize 32 ≤ total (s.starts.map (·.length)) := by
  rw [summary, classHours, totalWithin_eq]
  split
  · next h => exact iff_of_false nofun fun hlong => Nat.not_le.2 h hlong.2
  · next h =>
    constructor
    · intro hf
      cases hf
      exact ⟨rfl, Nat.not_lt.1 h⟩
    · rintro ⟨rfl, -⟩
      rfl

end Timetable

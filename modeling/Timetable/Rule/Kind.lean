import Timetable.Rule.Booking
import Timetable.Rule.Capacity
import Timetable.Rule.Pinning
import Timetable.Rule.Timing

/-!
# The rules that can be configured

A `RuleKind` names a rule, and `RuleKind.rule` makes it, given whatever parameters it needs.
-/

set_option autoImplicit false

namespace Timetable

/-- The name of a rule that can be configured. -/
inductive RuleKind
  | duplicateSections
  | teacherConflict
  | localConflict
  | roomConflict
  | roomProperties
  | resources
  | prerequisites
  | gradeRange
  | teacherGroupCap
  | lunch
  | locked
  deriving DecidableEq, Repr, Inhabited

namespace RuleKind

/-- All kinds of rule. -/
def all : List RuleKind :=
  [duplicateSections, teacherConflict, localConflict, roomConflict, roomProperties, resources,
    prerequisites, gradeRange, teacherGroupCap, lunch, locked]

/-- The rules that apply if none are configured. -/
def standard : List RuleKind :=
  [duplicateSections, teacherConflict, localConflict, roomConflict, roomProperties]

/-- The name of a kind in configurations and reports. -/
def name : RuleKind → String
  | duplicateSections => "DUPLICATE_SECTIONS"
  | teacherConflict => "TEACHER_CONFLICT"
  | localConflict => "LOCAL_CONFLICT"
  | roomConflict => "ROOM_CONFLICT"
  | roomProperties => "ROOM_PROPERTIES"
  | resources => "RESOURCES"
  | prerequisites => "PREREQUISITES"
  | gradeRange => "GRADE_RANGE"
  | teacherGroupCap => "TEACHER_GROUP_CAP"
  | lunch => "LUNCH"
  | locked => "LOCKED"

/-- The bounds of room size that the rule of room sizes is made with. -/
structure SizeBounds where
  /-- The least number of seats for each student a course may have. -/
  minimum : Float := 1.0
  /-- The greatest number of seats for each student a course expects. -/
  maximum : Float := 1.0 / 0.0
  deriving Repr, Inhabited

/-- Makes a rule of a kind. -/
def rule (bounds : SizeBounds) (pins : Pins) (seed : UInt64) : RuleKind → Rule
  | duplicateSections => .duplicateSections
  | teacherConflict => .teacherConflict
  | localConflict => .localConflict bounds.minimum bounds.maximum
  | roomConflict => .roomConflict
  | roomProperties => .roomProperties
  | resources => .resources seed
  | prerequisites => .prerequisites
  | gradeRange => .gradeRange
  | teacherGroupCap => .teacherGroupCap seed
  | lunch => .lunch
  | locked => .locked pins

/-- A rule has the name of its kind. -/
theorem name_rule (bounds : SizeBounds) (pins : Pins) (seed : UInt64) (k : RuleKind) :
    (k.rule bounds pins seed).name = k.name := by
  cases k <;> rfl

end RuleKind

end Timetable

import Timetable.Rule.Basic

/-!
# Rules against double booking

A section is held once, a teacher is in one place at a time, and a room has one section at a time.
All three name the starts that are in the way.
-/

set_option autoImplicit false

namespace Timetable.Rule

/-- A section may be placed once. -/
def duplicateSections : Rule where
  name := "DUPLICATE_SECTIONS"
  onStart s c := [.clash (s.startOf? c.sectionId).toList s!"{c.sectionId} is already scheduled"]

/-- A teacher teaches one section at a time. -/
def teacherConflict : Rule where
  name := "TEACHER_CONFLICT"
  onPresent {p} s m :=
    let busy := (s.occurring m.slot).filter fun o =>
      o.sectionId ≠ m.sectionId && p.shareTeacher m.sectionId o.sectionId
    [.clash (busy.map (·.start)) s!"a teacher of {m.sectionId} is busy at {m.periodId}"]

/-- A room hosts one section at a time. -/
def roomConflict : Rule where
  name := "ROOM_CONFLICT"
  onPresent s m :=
    let occupant := (s.occurringAt? m.slot m.roomId).toList.filter fun o =>
      o.sectionId ≠ m.sectionId
    [.clash (occupant.map (·.start)) s!"{m.roomId} is occupied at {m.periodId}"]

end Timetable.Rule

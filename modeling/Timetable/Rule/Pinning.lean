import Timetable.Pins
import Timetable.Rule.Basic

/-!
# The rule of pinned placements

A pinned section stays where it is pinned to, and nothing else comes into its room or takes its
teachers while it is in session.  As these are flaws of the other candidate, a pinned section is
never made to give way.
-/

set_option autoImplicit false

namespace Timetable.Rule

/-- Pinned sections stay put and keep their room and their teachers to themselves. -/
def locked (pins : Pins) : Rule where
  name := "LOCKED"
  onStart _ c :=
    match pins.find? c.sectionId with
    | .none => []
    | some t =>
      require (Pins.allows t c) s!"{t.sectionId} is locked to {t.roomId} at {t.periodId}"
  onPresent {p} s m :=
    if pins.isEmpty then []
    else
      ((s.occurring m.slot).filter fun o => o.sectionId ≠ m.sectionId && pins.holds o.start).flatMap
        fun o =>
          let apart := o.start.roomId ≠ m.roomId && !p.shareTeacher m.sectionId o.sectionId
          require apart s!"overlaps locked {o.start}"

end Timetable.Rule

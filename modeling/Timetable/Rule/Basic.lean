import Timetable.Report
import Timetable.Schedule.Basic

/-!
# Rules

A `Rule` says what stands against putting a start into a schedule.  It looks at the run as a whole
and at each of its periods, and raises an `Objection` for everything it dislikes.  A rule that cares
for one of the two only leaves the other out.
-/

set_option autoImplicit false

namespace Timetable

/-- Something that can be held against a candidate. -/
structure Rule where
  /-- The name that reports and configurations use. -/
  name : String
  /-- The objections to the whole run. -/
  onStart : {p : Program} → Schedule p → Start → List Objection := fun _ _ => []
  /-- The objections to one period of the run. -/
  onPresent : {p : Program} → Schedule p → Present → List Objection := fun _ _ => []

/-- The objection to a candidate that does not meet a condition. -/
def Rule.require (condition : Bool) (explanation : String) : List Objection :=
  if condition then [] else [.flaw explanation]

end Timetable

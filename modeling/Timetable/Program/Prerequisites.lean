import Timetable.Offering

/-!
# The search for circular prerequisites

A course whose prerequisites lead back to it can never be scheduled in order.  `firstCircular?`
looks for one by depth-first search: it walks along prerequisites, remembering on a `Trail` the
courses it has seen and those it is in the middle of, and a step to one of the latter closes a
circle.  The answer is the course the walk was started from, the first in the list from which some
circle can be reached.
-/

set_option autoImplicit false

namespace Timetable

/-- What a depth-first walk along prerequisites remembers. -/
structure Trail where
  /-- Every course the walk has come to. -/
  seen : List CourseId := []
  /-- The courses between the start of the walk and where it stands, the last one first. -/
  path : List CourseId := []
  deriving DecidableEq, Repr

namespace Trail

/-- The walk comes to a course. -/
def enter (t : Trail) (c : CourseId) : Trail := ⟨c :: t.seen, c :: t.path⟩

/-- The walk goes back from a course. -/
def leave (t : Trail) (c : CourseId) : Trail := { t with path := t.path.erase c }

/-- What a walk does with a prerequisite of the course it is at: one it is in the middle of closes a
circle, one it has seen is passed over, and from any other it walks on. -/
def visit (walk : Trail → CourseId → Option Trail) (t : Trail) (d : CourseId) : Option Trail :=
  if d ∈ t.path then none else if d ∈ t.seen then some t else walk t d

/-- Walks from a course to everything it leads to that has not been seen; none if a circle turns
up.  No path is longer than `fuel`, if that is more than the number of courses. -/
def explore (prerequisites : CourseId → List CourseId) :
    (fuel : Nat) → Trail → CourseId → Option Trail
  | 0, t, _ => some t
  | fuel + 1, t, c =>
    ((prerequisites c).foldlM (visit (explore prerequisites fuel)) (t.enter c)).map (·.leave c)

end Trail

/-- The prerequisites of a course, by its identifier. -/
def prerequisitesIn (courses : List Course) (c : CourseId) : List CourseId :=
  ((courses.find? (·.id = c)).map (·.prerequisiteIds)).getD []

/-- The first of the given courses from which a circle can be reached, among the courses that no
earlier walk has seen. -/
def firstCircularFrom (courses : List Course) : Trail → List Course → Option CourseId
  | _, [] => none
  | t, c :: rest =>
    if c.id ∈ t.seen then firstCircularFrom courses t rest
    else
      match t.explore (prerequisitesIn courses) (courses.length + 1) c.id with
      | none => some c.id
      | some t => firstCircularFrom courses t rest

/-- The first course from which a circle of prerequisites can be reached. -/
def firstCircular? (courses : List Course) : Option CourseId :=
  firstCircularFrom courses {} courses

end Timetable

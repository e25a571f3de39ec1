import Timetable.Rule.Basic

/-!
# Rules of time

* `prerequisites`: what has to come before a course is over when it starts.
* `gradeRange`: periods kept for some grades host only courses for those.
* `lunch`: in every block every teacher has a lunch period free.
-/

set_option autoImplicit false

namespace Timetable.Rule

/-- Whether some section of a course is over before a slot. -/
def endsBefore {p : Program} (s : Schedule p) (course : CourseId) (slot : Slot) : Bool :=
  (p.sectionsOfCourse course).any fun id =>
    ((s.startOf? id).map (·.lastSlot.precedes slot)).getD false

/-- Of every prerequisite some section is over before the candidate starts. -/
def prerequisites : Rule where
  name := "PREREQUISITES"
  onStart {p} s c :=
    (p.courseOf c.sectionId).prerequisiteIds.flatMap fun course =>
      let title := (p.course course).title
      require (endsBefore s course c.slot) s!"no section of {title} ends before {c.periodId}"

/-- A period for some grades hosts only courses for grades among them. -/
def gradeRange : Rule where
  name := "GRADE_RANGE"
  onPresent {p} _ m :=
    let period := p.period m.periodId
    match period.grades, (p.courseOf m.sectionId).grades with
    | some allowed, some wanted =>
      let description := period.description
      require (allowed.encloses wanted)
        (s!"{description} is for grades {allowed.min}-{allowed.max}, " ++
          s!"course wants {wanted.min}-{wanted.max}")
    | _, _ => []

/-- What a teacher has against losing the lunch periods that a candidate does not cover: nothing
unless they teach in all of them, else a clash with what they teach then. -/
def lunchObjections {p : Program} (s : Schedule p) (c : Start) (free : List Slot)
    (teacher : TeacherId) : List Objection :=
  let others := ((p.sectionsOfTeacher teacher).filter (· ≠ c.sectionId)).filterMap fun id =>
    (s.startOf? id).filter (·.slot.blockId = c.slot.blockId)
  if free.all fun l => others.any (·.covers l) then
    let name := (p.teacher teacher).name
    [.clash (others.filter fun a => free.any a.covers) s!"{name} would have no lunch"]
  else []

/-- Every teacher keeps a lunch period free in every block that has one. -/
def lunch : Rule where
  name := "LUNCH"
  onStart {p} s c :=
    let lunches := (p.lunchPeriods c.slot.blockId).map (·.slot)
    let free := lunches.filter fun l => !c.covers l
    let teachers := p.teachersOf c.sectionId
    if !lunches.any c.covers || teachers.isEmpty then []
    else if free.isEmpty then
      [.flaw s!"{c.sectionId} covers every lunch period of its block"]
    else teachers.flatMap (lunchObjections s c free)

end Timetable.Rule

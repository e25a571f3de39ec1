import Timetable.Rule.Basic

/-!
# House rules

A rule that a house makes for itself: some sections may not be placed at all, and some pairs of
sections may not be placed together.
-/

set_option autoImplicit false

namespace Timetable.Rule

/-- The sections in `vetoed` are not placed.  A section is not placed beside another one if the pair
is in `clashing`, the candidate's section first. -/
def house (vetoed : List SectionId) (clashing : List (SectionId × SectionId)) : Rule where
  name := "CUSTOM"
  onStart s c :=
    let rivals := (clashing.filter (·.1 = c.sectionId)).filterMap fun pair => s.startOf? pair.2
    require (!vetoed.contains c.sectionId) s!"veto of {c.sectionId}" ++
    [.clash rivals s!"clash with {c}"]

end Timetable.Rule

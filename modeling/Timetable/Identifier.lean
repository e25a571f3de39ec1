/-!
# Identifiers

A program is described by entities of ten kinds that refer to each other by number.  An
identifier carries its kind in its type, so a room number cannot be handed over where a section
number is meant, although both are plain numbers.

* `Kind` lists the kinds; `Kind.label` is the word used for one in messages, `Kind.tag` the short
  word in front of a number, as in `section#7`.
* `Id k` is the identifier of an entity of kind `k`.  Identifiers are ordered by number, and the
  order is total and agrees with equality (`TransOrd`, `LawfulEqOrd`).
-/

set_option autoImplicit false

namespace Timetable

/-- The kinds of entity a program is made of. -/
inductive Kind
  | teacher
  | room
  | building
  | course
  | courseSection
  | block
  | period
  | property
  | resource
  | teacherGroup
  deriving DecidableEq, Repr, Inhabited

namespace Kind

/-- Every kind, in the order in which identifiers are usually listed. -/
def all : List Kind :=
  [teacher, room, building, course, courseSection, block, period, property, resource, teacherGroup]

/-- The word for an entity of the kind, as messages write it. -/
def label : Kind → String
  | teacher => "teacher"
  | room => "room"
  | building => "building"
  | course => "course"
  | courseSection => "section"
  | block => "time block"
  | period => "class period"
  | property => "room property"
  | resource => "resource"
  | teacherGroup => "teacher group"

/-- The short word written in front of the number of an identifier. -/
def tag : Kind → String
  | block => "block"
  | period => "period"
  | property => "property"
  | teacherGroup => "group"
  | k => k.label

end Kind

/-- The identifier of an entity of kind `k`. -/
structure Id (k : Kind) where
  val : Nat
  deriving DecidableEq, Repr, Inhabited

abbrev TeacherId := Id .teacher
abbrev RoomId := Id .room
abbrev BuildingId := Id .building
abbrev CourseId := Id .course
abbrev SectionId := Id .courseSection
abbrev BlockId := Id .block
abbrev PeriodId := Id .period
abbrev PropertyId := Id .property
abbrev ResourceId := Id .resource
abbrev GroupId := Id .teacherGroup

namespace Id

variable {k : Kind}

theorem ext {a b : Id k} (h : a.val = b.val) : a = b := by
  cases a; cases b; simp_all

/-- An identifier is written as its kind's tag and its number, as in `room#12`. -/
def text (a : Id k) : String := s!"{k.tag}#{a.val}"

instance : ToString (Id k) := ⟨text⟩

/-- Identifiers are hashed to their number. -/
instance : Hashable (Id k) := ⟨fun a => a.val.toUInt64⟩

/-- Identifiers are ordered by number. -/
instance : Ord (Id k) := ⟨fun a b => compare a.val b.val⟩

theorem compare_def (a b : Id k) : compare a b = compare a.val b.val := rfl

instance : Std.TransOrd (Id k) where
  eq_swap {a b} := by
    simp only [compare_def]; exact Std.OrientedCmp.eq_swap
  isLE_trans {a b c} := by
    simp only [compare_def]; exact Std.TransCmp.isLE_trans

instance : Std.LawfulEqOrd (Id k) where
  eq_of_compare {a b} h := ext (Std.LawfulEqCmp.eq_of_compare (compare_def a b ▸ h))
  compare_self := Nat.compare_eq_eq.2 rfl

end Id

end Timetable

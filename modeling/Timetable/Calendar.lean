import Timetable.Fault

/-!
# Blocks and periods

The timeline of a program is a set of time blocks, each an ordered run of class periods.  A section
runs for consecutive periods of one block and never crosses into another.

* `Slot` is a place on the timeline: a block and an index within it.  Slots are ordered by block,
  then by index.
* `BlockRecord` and `PeriodRecord` describe a block and its periods; `Block` and `Period` are the
  same once every period knows its block and its index.
* `GradeRange` is a closed range of grades.
-/

set_option autoImplicit false

namespace Timetable

/-! ## Grades -/

/-- The grades from `min` to `max`, both included. -/
structure GradeRange where
  min : Nat
  max : Nat
  deriving DecidableEq, Repr, Inhabited

/-- Whether a range has the bounds of another one within its own. -/
def GradeRange.encloses (r s : GradeRange) : Bool :=
  decide (r.min ≤ s.min) && decide (s.max ≤ r.max)

/-! ## Slots -/

/-- A place on the timeline. -/
structure Slot where
  blockId : BlockId
  /-- The place within the block, from zero. -/
  index : Nat
  deriving DecidableEq, Repr, Inhabited

namespace Slot

/-- The numbers a slot is compared by. -/
def rank (s : Slot) : List Nat := [s.blockId.val, s.index]

theorem rank_injective {s t : Slot} (h : s.rank = t.rank) : s = t := by
  cases s; cases t
  simp only [rank, List.cons.injEq, and_true] at h
  obtain ⟨h₁, rfl⟩ := h
  rw [Id.ext h₁]

/-- A slot is hashed to its two numbers, side by side. -/
instance : Hashable Slot := ⟨fun s => s.blockId.val.toUInt64 <<< 32 ||| s.index.toUInt64⟩

/-- Slots are ordered by block, then by index. -/
instance : Ord Slot := ⟨fun s t => compare s.rank t.rank⟩

theorem compare_def (s t : Slot) : compare s t = compare s.rank t.rank := rfl

instance : Std.TransOrd Slot where
  eq_swap := by simp only [compare_def]; exact Std.OrientedCmp.eq_swap
  isLE_trans := by simp only [compare_def]; exact Std.TransCmp.isLE_trans

instance : Std.LawfulEqOrd Slot where
  eq_of_compare h := rank_injective (by
    rw [compare_def] at h
    exact Std.LawfulEqCmp.eq_of_compare h)
  compare_self := by
    simp only [compare_def]
    exact Std.ReflCmp.compare_self

/-- Whether a slot comes before another one. -/
def precedes (s t : Slot) : Bool := (compare s t).isLT

/-- The slot so many places later, whether the block is that long or not. -/
def later (s : Slot) (offset : Nat) : Slot := { s with index := s.index + offset }

@[simp] theorem blockId_later (s : Slot) (n : Nat) : (s.later n).blockId = s.blockId := rfl

@[simp] theorem index_later (s : Slot) (n : Nat) : (s.later n).index = s.index + n := rfl

/-- The slot so many places later, if its index still fits 32 bits. -/
def advance (s : Slot) (offset : Nat) : Except Fault Slot :=
  (addWithin 32 s.index offset).map fun index => { s with index }

/-- A slot is written as its block and, in brackets, its index. -/
def text (s : Slot) : String := s!"{s.blockId}[{s.index}]"

end Slot

/-! ## Periods and blocks -/

/-- The description of a period.  Its block and its index are said by its place. -/
structure PeriodRecord where
  id : PeriodId
  description : String := ""
  isLunch : Bool := false
  /-- The grades that may attend; every grade if there is no range. -/
  grades : Option GradeRange := none
  /-- The share of the students that is expected to attend. -/
  attendance : Float := 1.0
  deriving Repr, Inhabited

/-- The description of a block. -/
structure BlockRecord where
  id : BlockId
  description : String := ""
  /-- The periods in the order of time. -/
  periods : List PeriodRecord
  deriving Repr, Inhabited

/-- A class period. -/
structure Period where
  id : PeriodId
  blockId : BlockId
  /-- The place within the block, from zero. -/
  index : Nat
  description : String
  isLunch : Bool
  grades : Option GradeRange
  attendance : Float
  deriving Repr, Inhabited

/-- The place of a period on the timeline. -/
def Period.slot (p : Period) : Slot := ⟨p.blockId, p.index⟩

/-- A block of consecutive periods. -/
structure Block where
  id : BlockId
  description : String
  periodIds : List PeriodId
  deriving DecidableEq, Repr, Inhabited

/-- The number of periods of a block. -/
def Block.length (b : Block) : Nat := b.periodIds.length

namespace BlockRecord

/-- The block a record describes. -/
def block (b : BlockRecord) : Block where
  id := b.id
  description := b.description
  periodIds := b.periods.map (·.id)

/-- The periods of a block, each told its block and its index. -/
def placedPeriods (b : BlockRecord) : List Period :=
  b.periods.zipIdx.map fun (p, index) =>
    { id := p.id
      blockId := b.id
      index
      description := p.description
      isLunch := p.isLunch
      grades := p.grades
      attendance := p.attendance }

end BlockRecord

end Timetable

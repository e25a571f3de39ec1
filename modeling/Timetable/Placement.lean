import Timetable.Program.Basic

/-!
# Placements

A `Start` puts a section into a room from a period on.  Every period of its run is a `Present`.  A
`Triple` is the bare form of a start that is read and written: section, room and period.

* `Start.make` makes a start, if the three entities exist and the run fits into its block.
* `Start.covers` and `Start.overlaps` say in which slots a section is in session; `Start.presents`
  lists them, `Start.presentAt?` looks for one.
* Starts are ordered by slot, room, section, period and length, in this order.
-/

set_option autoImplicit false

namespace Timetable

/-! ## What can go wrong -/

/-- Why a placement cannot be made. -/
inductive PlacementError
  | unknown (kind : Kind) (id : Nat)
  | doesNotFit (sectionId : SectionId) (periodId : PeriodId)
  /-- Other placements, or the rules, stand in the way. -/
  | conflict (sectionId : SectionId) (periodId : PeriodId) (reason : String)
  | fault (f : Fault)
  deriving DecidableEq, Repr, Inhabited

namespace PlacementError

/-- The text of an error. -/
def message : PlacementError → String
  | unknown kind id =>
    let label := kind.label
    s!"unknown {label} id {id}"
  | doesNotFit sectionId periodId =>
    s!"{sectionId} does not fit in its block when starting at {periodId}"
  | conflict sectionId periodId reason => s!"cannot place {sectionId} at {periodId}: {reason}"
  | fault f => f.message

/-- Takes an error for "nothing", except for a fault, which is passed on. -/
def toOption {α : Type} : Except PlacementError α → Except Fault (Option α)
  | .ok a => .ok (some a)
  | .error (.fault f) => .error f
  | .error _ => .ok none

end PlacementError

/-! ## Starts -/

/-- A section that starts in a room at a period. -/
structure Start where
  /-- The slot of the first period. -/
  slot : Slot
  roomId : RoomId
  sectionId : SectionId
  /-- The first period. -/
  periodId : PeriodId
  /-- The number of periods the section runs for. -/
  length : Nat
  deriving DecidableEq, Repr, Inhabited

namespace Start

/-- The numbers a start is compared by. -/
def rank (s : Start) : List Nat :=
  [s.slot.blockId.val, s.slot.index, s.roomId.val, s.sectionId.val, s.periodId.val, s.length]

theorem rank_injective {s t : Start} (h : s.rank = t.rank) : s = t := by
  obtain ⟨⟨⟨b⟩, i⟩, ⟨r⟩, ⟨c⟩, ⟨q⟩, n⟩ := s
  obtain ⟨⟨⟨b'⟩, i'⟩, ⟨r'⟩, ⟨c'⟩, ⟨q'⟩, n'⟩ := t
  simp only [rank, List.cons.injEq, and_true] at h
  obtain ⟨rfl, rfl, rfl, rfl, rfl, rfl⟩ := h
  rfl

/-- Starts are ordered by slot, room, section, period and length. -/
instance : Ord Start := ⟨fun s t => compare s.rank t.rank⟩

theorem compare_def (s t : Start) : compare s t = compare s.rank t.rank := rfl

instance : Std.TransOrd Start where
  eq_swap := by simp only [compare_def]; exact Std.OrientedCmp.eq_swap
  isLE_trans := by simp only [compare_def]; exact Std.TransCmp.isLE_trans

instance : Std.LawfulEqOrd Start where
  eq_of_compare h := rank_injective (by
    rw [compare_def] at h
    exact Std.LawfulEqCmp.eq_of_compare h)
  compare_self := by
    simp only [compare_def]
    exact Std.ReflCmp.compare_self

/-- Makes a start.  The three entities are looked for in the order period, room, section.  The end of
the run has to fit 32 bits, and is compared with as much as 32 bits keep of the length of the block. -/
def make (p : Program) (periodId : PeriodId) (roomId : RoomId) (sectionId : SectionId) :
    Except PlacementError Start :=
  match p.period? periodId, p.room? roomId, p.section? sectionId with
  | none, _, _ => .error (.unknown .period periodId.val)
  | some _, none, _ => .error (.unknown .room roomId.val)
  | some _, some _, none => .error (.unknown .courseSection sectionId.val)
  | some period, some _, some held =>
    match addWithin 32 period.index held.length with
    | .error f => .error (.fault f)
    | .ok stop =>
      if stop > lowBits 32 (p.block period.blockId).length then
        .error (.doesNotFit sectionId periodId)
      else .ok { slot := period.slot, roomId, sectionId, periodId, length := held.length }

/-- The slot behind the last one of the run. -/
def stop (s : Start) : Slot := s.slot.later s.length

/-- The slot of the last period. -/
def lastSlot (s : Start) : Slot := s.slot.later (s.length - 1)

/-- Whether the section is in session at a slot. -/
def covers (s : Start) (slot : Slot) : Bool :=
  slot.blockId = s.slot.blockId && s.slot.index ≤ slot.index && slot.index < s.stop.index

/-- Whether two runs have a slot in common. -/
def overlaps (s t : Start) : Bool :=
  s.slot.blockId = t.slot.blockId && s.slot.index < t.stop.index && t.slot.index < s.stop.index

/-- A start is written as its section, room and first period. -/
def text (s : Start) : String := s!"{s.sectionId} in {s.roomId} from {s.periodId}"

instance : ToString Start := ⟨text⟩

end Start

/-! ## The periods of a run -/

/-- One period of the run of a section. -/
structure Present where
  start : Start
  /-- How many periods of the run are over. -/
  offset : Nat
  periodId : PeriodId
  deriving DecidableEq, Repr, Inhabited

namespace Present

def roomId (m : Present) : RoomId := m.start.roomId
def sectionId (m : Present) : SectionId := m.start.sectionId

/-- The slot of the period. -/
def slot (m : Present) : Slot := m.start.slot.later m.offset

/-- A present is written as its section, room and period. -/
def text (m : Present) : String := s!"{m.sectionId} in {m.roomId} at {m.periodId}"

instance : ToString Present := ⟨text⟩

end Present

namespace Start

/-- What is going on at a slot, if the section is in session then. -/
def presentAt? (p : Program) (s : Start) (slot : Slot) : Option Present :=
  if s.covers slot then
    (p.periodAt? slot).map fun q => ⟨s, slot.index - s.slot.index, q⟩
  else none

/-- The periods of the run in the order of time. -/
def presents (p : Program) (s : Start) : List Present :=
  (List.range s.length).map fun offset =>
    ⟨s, offset, (p.periodAt? (s.slot.later offset)).getD default⟩

end Start

/-! ## Triples -/

/-- The bare form of a start.  A start that is pinned may be marked so. -/
structure Triple where
  sectionId : SectionId
  roomId : RoomId
  periodId : PeriodId
  locked : Bool := false
  deriving DecidableEq, Repr, Inhabited

/-- The bare form of a start. -/
def Start.triple (s : Start) (locked : Bool) : Triple :=
  { sectionId := s.sectionId, roomId := s.roomId, periodId := s.periodId, locked }

/-- The start a triple stands for. -/
def Triple.resolve (p : Program) (t : Triple) : Except PlacementError Start :=
  Start.make p t.periodId t.roomId t.sectionId

end Timetable

import Timetable.Proofs.Timeline

/-!
# The slots of a run

The slots of a run are worked out in four ways.  `Start.covers` tests a slot against the beginning
of the run and the slot behind its end, `Start.overlaps` compares the ends of two runs,
`Start.presents` counts offsets from the beginning, and `Start.lastSlot` goes to the last of them.
For the starts of a program all four speak of the same slots.

* `Start.IsOf.visitsCovered`: the periods that are listed are those at the covered slots, in the
  order of time, and each is the one that is found when its slot is looked up.
* `Start.IsOf.slots_agree`: moreover two runs overlap if a slot is covered by both.

That there is a period at each of the slots is what a start is checked for when it is made, and that
there are any slots is checked when the program is accepted.
-/

set_option autoImplicit false

namespace Timetable

/-- A slot comes before another one if its block does, or within their block. -/
theorem Slot.precedes_iff {s t : Slot} : s.precedes t ↔
    s.blockId.val < t.blockId.val ∨ s.blockId = t.blockId ∧ s.index < t.index := by
  rw [Slot.precedes, Ordering.isLT_iff_eq_lt, Slot.compare_def, Slot.rank, Slot.rank,
    List.compare_cons_cons, List.compare_cons_cons, List.compare_nil_nil, Ordering.then_eq_lt,
    Nat.compare_eq_lt, Nat.compare_eq_eq, Ordering.then_eq, Nat.compare_eq_lt]
  exact or_congr_right (and_congr_left' ⟨Id.ext, congrArg Id.val⟩)

theorem Slot.precedes_later {s : Slot} {i j : Nat} (h : i < j) :
    (s.later i).precedes (s.later j) :=
  Slot.precedes_iff.2 (.inr ⟨rfl, Nat.add_lt_add_left h s.index⟩)

namespace Start

variable {p : Program} {a b c : Start}

/-! ## The slots of the periods -/

theorem map_slot_presents (p : Program) (c : Start) :
    (c.presents p).map (·.slot) = (List.range c.length).map c.slot.later := by
  rw [presents, List.map_map]
  rfl

/-- The periods of a run are listed in the order of time. -/
theorem pairwise_slot_presents (p : Program) (c : Start) :
    ((c.presents p).map (·.slot)).Pairwise fun s t => s.precedes t := by
  rw [map_slot_presents, List.pairwise_map]
  exact List.pairwise_lt_range.imp Slot.precedes_later

/-- **What is listed for a slot is what is found there.** -/
theorem IsOf.presentAt?_slot (h : a.IsOf p) {m : Present} (hm : m ∈ a.presents p) :
    p.periodAt? m.slot = some m.periodId ∧ a.presentAt? p m.slot = some m := by
  have hcovers : a.covers m.slot := exists_mem_presents_iff.1 ⟨m, hm, rfl⟩
  obtain ⟨offset, ho, rfl⟩ := List.mem_map.1 hm
  obtain ⟨q, hq⟩ := h.exists_periodAt? (List.mem_range.1 ho)
  have hperiod : p.periodAt? (a.slot.later offset) =
      some ((p.periodAt? (a.slot.later offset)).getD default) := by
    rw [hq, Option.getD_some]
  refine ⟨hperiod, presentAt?_eq_some_iff.2 ⟨hcovers, _, hperiod, ?_⟩⟩
  simp only [Present.slot, Slot.index_later, Nat.add_sub_cancel_left]

/-- The last period that is listed is at the last slot. -/
theorem IsOf.getLast?_slot_presents (h : a.IsOf p) :
    ((a.presents p).map (·.slot)).getLast? = some a.lastSlot := by
  have hpos := h.length_pos
  rw [map_slot_presents, List.getLast?_map, List.getLast?_range, if_neg (Nat.ne_of_gt hpos)]
  rfl

/-! ## Machine words -/

/-- The slot behind the end of a run can be told in a machine word, so that no sum wraps around. -/
theorem IsOf.stop_lt (h : a.IsOf p) : a.stop.index < wordSize 32 := by
  obtain ⟨period, room, held, -, -, -, hlt, -, ha⟩ := make_eq_ok_iff.1 h
  rw [stop, Slot.index_later, ha]
  exact hlt

/-- One gets to the last slot without an overflow. -/
theorem IsOf.advance_slot (h : a.IsOf p) : a.slot.advance (a.length - 1) = .ok a.lastSlot := by
  have hstop : a.slot.index + a.length < wordSize 32 := h.stop_lt
  rw [Slot.advance, addWithin_eq_ok (by omega)]
  rfl

/-! ## Agreement -/

/-- The periods of a run are those at the slots it covers. -/
structure VisitsCovered (p : Program) (a : Start) : Prop where
  /-- No period is looked for where there is none. -/
  presents!_eq : a.presents! p = .ok (a.presents p)
  /-- No sum of the beginning and the length of the run wraps around. -/
  stop_lt : a.stop.index < wordSize 32
  advance_slot : a.slot.advance (a.length - 1) = .ok a.lastSlot
  length_presents : (a.presents p).length = a.length
  /-- The periods stand in the order of time. -/
  pairwise_slot : ((a.presents p).map (·.slot)).Pairwise fun s t => s.precedes t
  mem_slot_iff : ∀ slot, slot ∈ (a.presents p).map (·.slot) ↔ a.covers slot
  getLast?_slot : ((a.presents p).map (·.slot)).getLast? = some a.lastSlot
  /-- A period is the one that the program has at its slot. -/
  periodAt?_slot : ∀ m ∈ a.presents p, p.periodAt? m.slot = some m.periodId
  /-- A period is found when its slot is looked up. -/
  presentAt?_slot : ∀ m ∈ a.presents p, a.presentAt? p m.slot = some m
  /-- Nothing is found at any other slot. -/
  presentAt?_eq_none : ∀ slot, ¬ a.covers slot → a.presentAt? p slot = none

theorem IsOf.visitsCovered (h : a.IsOf p) : a.VisitsCovered p where
  presents!_eq := h.presents!_eq
  stop_lt := h.stop_lt
  advance_slot := h.advance_slot
  length_presents := Start.length_presents p a
  pairwise_slot := pairwise_slot_presents p a
  mem_slot_iff slot := by
    rw [List.mem_map]
    exact exists_mem_presents_iff
  getLast?_slot := h.getLast?_slot_presents
  periodAt?_slot _ hm := (h.presentAt?_slot hm).1
  presentAt?_slot _ hm := (h.presentAt?_slot hm).2
  presentAt?_eq_none _ hslot := if_neg hslot

/-- **All ways to look at the runs of a program speak of the same slots.** -/
theorem IsOf.slots_agree (ha : a.IsOf p) (hb : b.IsOf p) : a.VisitsCovered p ∧
    (a.overlaps b ↔ ∃ slot, a.covers slot ∧ b.covers slot) ∧
    a.overlaps b = b.overlaps a ∧ a.overlaps a := by
  refine ⟨ha.visitsCovered, ha.overlaps_iff hb, Bool.eq_iff_iff.2 overlaps_comm, ?_⟩
  exact (ha.overlaps_iff ha).2 ⟨a.slot, ha.covers_slot, ha.covers_slot⟩

end Start

namespace Fair

/-- The first course from the second period of the first day on. -/
def morning : Start := ⟨⟨⟨2⟩, 1⟩, ⟨1⟩, ⟨7⟩, ⟨1⟩, 2⟩

/-- The second course in the last period of that day. -/
def noon : Start := ⟨⟨⟨2⟩, 2⟩, ⟨1⟩, ⟨5⟩, ⟨3⟩, 1⟩

theorem isOf_morning : morning.IsOf program := by rfl

theorem isOf_noon : noon.IsOf program := by rfl

end Fair

open Fair in
theorem slots_agree_fair : (morning.presents program).map (·.periodId) = [⟨1⟩, ⟨3⟩] ∧
    morning.VisitsCovered program ∧ morning.covers ⟨⟨2⟩, 2⟩ ∧ noon.covers ⟨⟨2⟩, 2⟩ ∧
    morning.overlaps noon ∧ noon.overlaps morning := by
  obtain ⟨hvisits, hoverlaps, hcomm, -⟩ := Start.IsOf.slots_agree isOf_morning isOf_noon
  have hmorning : morning.covers ⟨⟨2⟩, 2⟩ := by decide
  have hnoon : noon.covers ⟨⟨2⟩, 2⟩ := by decide
  have hboth := hoverlaps.2 ⟨_, hmorning, hnoon⟩
  exact ⟨by decide, hvisits, hmorning, hnoon, hboth, hcomm ▸ hboth⟩

end Timetable

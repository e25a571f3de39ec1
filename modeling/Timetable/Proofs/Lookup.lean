import Timetable.Proofs.Reachable
import Timetable.Rule.House

/-!
# Looking up what goes on in a room

To say what goes on in a room at a slot, only the start that is nearest to the slot is looked at.
A run that began earlier and is still in session would be missed if another one had begun since.
`Schedule.AnswersByScan` says that nothing is ever missed: every look-up gives what looking at all
starts would give, at any slot, be there a period or not.

* `Schedule.Coherent.answersByScan`: this is so in coherent schedules, where runs in a room do not
  overlap.
* `Reachable.lookups_answer_by_scan`: and so in all that can be reached, under any rules among which
  are the one against placing a section twice and the one against using a room twice.

Of the other rules nothing needs to be known but that whoever they name is placed
(`Rulebook.NamesPlaced`), since those who are named are taken out of both indexes when a start is
forced.  The rules that can be configured keep to this (`Rulebook.IsBuiltIn.namesPlaced`), and so
does a rule that a house makes for itself (`Rule.namesPlaced_house`).
-/

set_option autoImplicit false

namespace Timetable

variable {p : Program} {book : Rulebook} {s : Schedule p}

/-- The rule of a house names only who is placed. -/
theorem Rule.namesPlaced_house (vetoed : List SectionId) (clashing : List (SectionId × SectionId)) :
    (house vetoed clashing).NamesPlaced p := by
  intro s c a hs _ ha
  rcases names_iff.1 ha with ⟨o, ho, ha⟩ | ⟨m, -, o, ho, -⟩
  · rcases List.mem_append.1 ho with ho | ho
    · obtain ⟨-, rfl⟩ := mem_require_iff.1 ho
      exact absurd ha List.not_mem_nil
    · cases List.mem_singleton.1 ho
      obtain ⟨pair, -, ha⟩ := List.mem_filterMap.1 ha
      exact hs.holds_of_startOf? ha
  · exact absurd ho List.not_mem_nil

/-! ## Looking at all starts -/

namespace Schedule

/-- The starts in a room that cover a slot. -/
def startsCovering (s : Schedule p) (room : RoomId) (slot : Slot) : List Start :=
  s.starts.filter fun a => a.roomId = room && a.covers slot

/-- The starts in a room that begin in the block of a slot and not after it. -/
def startsUpTo (s : Schedule p) (room : RoomId) (slot : Slot) : List Start :=
  s.starts.filter fun a =>
    a.roomId = room && a.slot.blockId = slot.blockId && a.slot.index ≤ slot.index

/-- Look-ups that follow the nearest start give what looking at all starts gives. -/
structure AnswersByScan (s : Schedule p) : Prop where
  /-- In session is the one start that covers the slot, or nothing if there is none. -/
  occurringAt? : ∀ room slot,
    s.startsCovering room slot = [] ∧ s.occurringAt? slot room = none ∨
    ∃ a q, s.startsCovering room slot = [a] ∧ p.periodAt? slot = some q ∧
      s.occurringAt? slot room = some ⟨a, slot.index - a.slot.index, q⟩
  /-- The nearest start is the latest of those that begin up to the slot. -/
  startingBefore?_eq_some_iff : ∀ room slot a, s.startingBefore? room slot = some a ↔
    a ∈ s.startsUpTo room slot ∧ ∀ b ∈ s.startsUpTo room slot, b.slot.index ≤ a.slot.index
  startingBefore?_eq_none_iff : ∀ room slot,
    s.startingBefore? room slot = none ↔ s.startsUpTo room slot = []
  /-- What is in session in all rooms are the starts that cover the slot. -/
  occurring_perm : ∀ slot,
    ((s.occurring slot).map (·.start)).Perm (s.starts.filter (·.covers slot))
  of_mem_occurring : ∀ slot, ∀ m ∈ s.occurring slot,
    m.offset = slot.index - m.start.slot.index ∧ p.periodAt? slot = some m.periodId
  /-- They are listed in the order of the rooms, one for each room at most. -/
  pairwise_occurring : ∀ slot, (s.occurring slot).Pairwise fun m n => m.roomId.val < n.roomId.val

namespace Coherent

variable (h : s.Coherent) {room : RoomId} {slot : Slot} {a : Start}

include h

theorem mem_startsUpTo_iff : a ∈ s.startsUpTo room slot ↔ s.Holds a ∧ a.roomId = room ∧
    a.slot.blockId = slot.blockId ∧ a.slot.index ≤ slot.index := by
  rw [startsUpTo, List.mem_filter, h.mem_starts_iff]
  simp only [Bool.and_eq_true, decide_eq_true_eq, and_assoc]

theorem mem_startsCovering_iff :
    a ∈ s.startsCovering room slot ↔ s.Holds a ∧ a.roomId = room ∧ a.covers slot := by
  rw [startsCovering, List.mem_filter, h.mem_starts_iff]
  simp only [Bool.and_eq_true, decide_eq_true_eq]

/-- Only one start in a room covers a slot. -/
theorem startsCovering_eq_singleton (ha : a ∈ s.startsCovering room slot) :
    s.startsCovering room slot = [a] := by
  have hnodup : (s.startsCovering room slot).Nodup := h.nodup_starts.filter _
  refine List.perm_singleton.1 ((List.perm_ext_iff_of_nodup hnodup (List.nodup_singleton a)).2 ?_)
  refine fun b => ⟨fun hb => List.mem_singleton.2 ?_, fun hb => List.mem_singleton.1 hb ▸ ha⟩
  obtain ⟨hb, hbroom, hbslot⟩ := h.mem_startsCovering_iff.1 hb
  obtain ⟨ha, haroom, haslot⟩ := h.mem_startsCovering_iff.1 ha
  exact h.apart hb ha (hbroom.trans haroom.symm)
    (((h.isOf_of_holds hb).overlaps_iff (h.isOf_of_holds ha)).2 ⟨slot, hbslot, haslot⟩)

theorem startingBefore?_eq_some_iff : s.startingBefore? room slot = some a ↔
    a ∈ s.startsUpTo room slot ∧ ∀ b ∈ s.startsUpTo room slot, b.slot.index ≤ a.slot.index := by
  constructor
  · intro ha
    refine ⟨h.mem_startsUpTo_iff.2 (h.of_startingBefore? ha), fun b hb => ?_⟩
    obtain ⟨hold, rfl, hblock, hle⟩ := h.mem_startsUpTo_iff.1 hb
    obtain ⟨b', hfound, hle'⟩ := h.exists_startingBefore? hold hblock hle
    cases Option.some.inj (ha.symm.trans hfound)
    exact hle'
  · rintro ⟨ha, hlatest⟩
    obtain ⟨hold, hroom, hblock, hle⟩ := h.mem_startsUpTo_iff.1 ha
    obtain ⟨b, hfound, hab⟩ := h.exists_startingBefore? hold hblock hle
    rw [hroom] at hfound
    have hb := h.of_startingBefore? hfound
    have hba := hlatest b (h.mem_startsUpTo_iff.2 hb)
    obtain ⟨hbold, hbroom, hbblock, -⟩ := hb
    -- both are the latest, so they begin in the same period
    have hslot : a.slot = b.slot :=
      Slot.ext (hblock.trans hbblock.symm) (Nat.le_antisymm hab hba)
    rw [hfound, h.eq_of_slot_eq hold hbold (hroom.trans hbroom.symm) hslot]

theorem startingBefore?_eq_none_iff :
    s.startingBefore? room slot = none ↔ s.startsUpTo room slot = [] := by
  rw [Option.eq_none_iff_forall_ne_some, List.eq_nil_iff_forall_not_mem]
  constructor
  · intro hnone a ha
    obtain ⟨hold, rfl, hblock, hle⟩ := h.mem_startsUpTo_iff.1 ha
    obtain ⟨b, hfound, -⟩ := h.exists_startingBefore? hold hblock hle
    exact hnone b hfound
  · intro hnil a ha
    exact hnil a (h.mem_startsUpTo_iff.2 (h.of_startingBefore? ha))

theorem occurringAt?_cases (room : RoomId) (slot : Slot) :
    s.startsCovering room slot = [] ∧ s.occurringAt? slot room = none ∨
    ∃ a q, s.startsCovering room slot = [a] ∧ p.periodAt? slot = some q ∧
      s.occurringAt? slot room = some ⟨a, slot.index - a.slot.index, q⟩ := by
  cases hm : s.occurringAt? slot room with
  | none =>
    refine .inl ⟨List.eq_nil_iff_forall_not_mem.2 fun a ha => ?_, rfl⟩
    obtain ⟨hold, hroom, hcovers⟩ := h.mem_startsCovering_iff.1 ha
    obtain ⟨m, hpresent⟩ := (h.isOf_of_holds hold).exists_presentAt? hcovers
    obtain ⟨rfl, -⟩ := Start.of_presentAt? hpresent
    rw [h.occurringAt?_eq_some_iff.2 ⟨hold, hroom, hpresent⟩] at hm
    cases hm
  | some m =>
    obtain ⟨hold, hroom, hpresent⟩ := h.occurringAt?_eq_some_iff.1 hm
    obtain ⟨hcovers, q, hq, he⟩ := Start.presentAt?_eq_some_iff.1 hpresent
    have hmem := h.mem_startsCovering_iff.2 ⟨hold, hroom, hcovers⟩
    exact .inr ⟨m.start, q, h.startsCovering_eq_singleton hmem, hq, congrArg some he⟩

theorem pairwise_occurring (slot : Slot) :
    (s.occurring slot).Pairwise fun m n => m.roomId.val < n.roomId.val := by
  refine List.pairwise_filterMap.2 ((OrderedMap.pairwise_keys h.rooms).imp ?_)
  intro room room' hlt m hm n hn
  rw [Present.roomId, Present.roomId, (h.occurringAt?_eq_some_iff.1 hm).2.1,
    (h.occurringAt?_eq_some_iff.1 hn).2.1]
  exact Nat.compare_eq_lt.1 hlt

/-- **In a coherent schedule look-ups give what looking at all starts gives.** -/
theorem answersByScan : s.AnswersByScan where
  occurringAt? := h.occurringAt?_cases
  startingBefore?_eq_some_iff _ _ _ := h.startingBefore?_eq_some_iff
  startingBefore?_eq_none_iff _ _ := h.startingBefore?_eq_none_iff
  occurring_perm := h.occurring_perm
  of_mem_occurring slot m hm := by
    obtain ⟨-, hpresent⟩ := h.mem_occurring_iff.1 hm
    obtain ⟨-, q, hq, he⟩ := Start.presentAt?_eq_some_iff.1 hpresent
    exact ⟨congrArg Present.offset he, hq.trans (congrArg some (congrArg Present.periodId he).symm)⟩
  pairwise_occurring := h.pairwise_occurring

end Coherent

end Schedule

/-- **In all schedules that can be reached look-ups give what looking at all starts gives.** -/
theorem Reachable.lookups_answer_by_scan (hnames : book.NamesPlaced p)
    (hdup : .duplicateSections ∈ book.rules) (hroom : .roomConflict ∈ book.rules)
    (h : Reachable book s) : s.AnswersByScan :=
  ((h.edits_of_namesPlaced hdup hroom hnames).coherent hdup hroom .empty).answersByScan

/-! ## An excursion

One section is away for two of the three periods of a day.  A rule of the house keeps another
section from being held at all. -/

namespace Excursion

def record : ProgramRecord where
  teachers := [{ id := ⟨1⟩ }]
  rooms := [{ id := ⟨1⟩, capacity := 10 }]
  courses := [{ id := ⟨1⟩, estimatedSize := 5, maxSize := 5, teacherIds := [⟨1⟩] }]
  sections := [
    { id := ⟨1⟩, courseId := ⟨1⟩, length := 2 },
    { id := ⟨2⟩, courseId := ⟨1⟩, length := 1 }]
  blocks := [{ id := ⟨1⟩, periods := [{ id := ⟨1⟩ }, { id := ⟨2⟩ }, { id := ⟨3⟩ }] }]

def program : Program := ⟨record, by rfl⟩

def outing : Start := ⟨⟨⟨1⟩, 0⟩, ⟨1⟩, ⟨1⟩, ⟨1⟩, 2⟩

theorem isOf_outing : outing.IsOf program := by rfl

def config : RuleConfig := { rules := [.duplicateSections, .roomConflict] }

def rulebook : Rulebook where
  rules := .house [⟨2⟩] [] :: config.rulebook.rules

def placed : Schedule program := (rulebook.assign (.empty program) outing).2

theorem namesPlaced_rulebook : rulebook.NamesPlaced program := by
  intro r hr
  rcases List.mem_cons.1 hr with rfl | hr
  · exact Rule.namesPlaced_house _ _
  · exact config.isBuiltIn_rulebook.namesPlaced r hr

end Excursion

theorem lookups_answer_by_scan_excursion : Excursion.placed.starts = [Excursion.outing] ∧
    Excursion.placed.occurringAt? ⟨⟨1⟩, 1⟩ ⟨1⟩ = some ⟨Excursion.outing, 1, ⟨2⟩⟩ ∧
      Excursion.placed.AnswersByScan := by
  refine ⟨by decide +kernel, by decide +kernel, ?_⟩
  exact Reachable.lookups_answer_by_scan Excursion.namesPlaced_rulebook
    (List.mem_cons_of_mem _ List.mem_cons_self)
    (List.mem_cons_of_mem _ (List.mem_cons_of_mem _ List.mem_cons_self))
    (Reaches.refl.assign trivial Excursion.isOf_outing)

end Timetable

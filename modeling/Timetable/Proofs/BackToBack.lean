import Timetable.Proofs.Booking
import Timetable.Proofs.Counting
import Timetable.Proofs.Replay
import Timetable.Proofs.Strict.Score

/-!
# Moves between two classes

To find out how often a teacher has to move from a class straight to the next one, in another place,
the starts of the teacher are sorted and only neighbours are looked at.  A teacher who is listed
twice for a course has its starts twice in this list.

`Schedule.MovesBetween` says what is to be counted, without any order of the starts.  That
neighbours are all that needs to be looked at, and that none of the pairs is seen twice, is
`InTurn.encard_moves`: in a list of runs that are sorted and keep clear of each other, nothing comes
between a run and the one that begins where it ends, and a repeated entry is never followed by a
move.  It is the absence of double booking that gives such lists, whatever can be done to a schedule
(`Reachable.moves_counted_exactly`).
-/

set_option autoImplicit false

namespace Timetable

variable {p : Program} {book : Rulebook} {s : Schedule p} {a b : Start}

/-! ## What is counted -/

/-- Two rooms are apart if they are in different buildings, and as long as the building of one of
them is not known, if they are different. -/
structure Program.AreApart (p : Program) (a b : RoomId) : Prop where
  building_ne : ∀ {x y}, (p.room a).buildingId = some x → (p.room b).buildingId = some y → x ≠ y
  room_ne : (p.room a).buildingId = none ∨ (p.room b).buildingId = none → a ≠ b

theorem Program.areApart_iff_isMove {a b : RoomId} : p.AreApart a b ↔ Schedule.isMove p a b := by
  rw [Schedule.isMove]
  constructor
  · intro h
    split
    · next x y hx hy => exact decide_eq_true (h.building_ne hx hy)
    · next hnone =>
      refine decide_eq_true (h.room_ne ?_)
      cases ha : (p.room a).buildingId with
      | none => exact .inl rfl
      | some x =>
        cases hb : (p.room b).buildingId with
        | none => exact .inr rfl
        | some y => exact absurd hb (hnone x y ha)
  · intro h
    split at h
    · next x y hx hy =>
      refine ⟨fun {x' y'} hx' hy' => ?_, fun hnone => ?_⟩
      · cases hx.symm.trans hx'
        cases hy.symm.trans hy'
        exact of_decide_eq_true h
      · rw [hx, hy] at hnone
        simp at hnone
    · next hnone =>
      exact ⟨fun hx hy => absurd hy (hnone _ _ hx), fun _ => of_decide_eq_true h⟩

/-- A run begins in the slot behind the last one of another run, in a room apart. -/
structure Start.LeadsAway (p : Program) (a b : Start) : Prop where
  slot_eq : b.slot = a.lastSlot.later 1
  areApart : p.AreApart a.roomId b.roomId

/-- A teacher has to move from one class that is placed straight to another one. -/
structure Schedule.MovesBetween (s : Schedule p) (teacher : TeacherId) (a b : Start) : Prop where
  mem_left : a ∈ s.starts
  mem_right : b ∈ s.starts
  teaches_left : teacher ∈ p.teachersOf a.sectionId
  teaches_right : teacher ∈ p.teachersOf b.sectionId
  leadsAway : a.LeadsAway p b

/-- The teachers and pairs of classes between which they have to move. -/
def Schedule.moves (s : Schedule p) : Set (TeacherId × Start × Start) :=
  {e | s.MovesBetween e.1 e.2.1 e.2.2}

/-! ## Runs in turn -/

/-- The slot behind the last one is the one where the run stops. -/
theorem Start.IsOf.later_lastSlot (ha : a.IsOf p) : a.lastSlot.later 1 = a.stop := by
  have hpos := ha.length_pos
  refine Slot.ext rfl ?_
  simp only [lastSlot, stop, Slot.index_later]
  omega

/-- The neighbours that are counted are those of which the first leads away to the second. -/
theorem Start.IsOf.leadsAway_iff (ha : a.IsOf p) :
    a.LeadsAway p b ↔ (a.stop = b.slot && Schedule.isMove p a.roomId b.roomId) := by
  rw [Bool.and_eq_true, decide_eq_true_eq, ← Program.areApart_iff_isMove, ← ha.later_lastSlot,
    eq_comm]
  exact ⟨fun h => ⟨h.slot_eq, h.areApart⟩, fun h => ⟨h.1, h.2⟩⟩

/-- No run leads away to one that begins no later. -/
theorem Start.IsOf.not_leadsAway_of_isLE (ha : a.IsOf p) (hle : (compare b a).isLE) :
    ¬ a.LeadsAway p b := by
  intro h
  have hpos := ha.length_pos
  have hslot := Slot.isLE_compare_iff.1 (Start.isLE_compare_slot hle)
  rw [h.slot_eq, ha.later_lastSlot, stop, Slot.blockId_later, Slot.index_later] at hslot
  omega

theorem Start.IsOf.not_leadsAway_self (ha : a.IsOf p) : ¬ a.LeadsAway p a :=
  ha.not_leadsAway_of_isLE Std.ReflCmp.isLE_rfl

/-- The list is in the order of time, and runs of it that overlap are the same. -/
structure InTurn (p : Program) (l : List Start) : Prop where
  isOf : ∀ a ∈ l, a.IsOf p
  sorted : l.Pairwise fun a b => (compare a b).isLE
  apart : ∀ a ∈ l, ∀ b ∈ l, a.overlaps b → a = b

namespace InTurn

variable {l : List Start}

/-- The pairs of runs of a list of which the first leads away to the second. -/
def moves (p : Program) (l : List Start) : Set (Start × Start) :=
  {e | e.1 ∈ l ∧ e.2 ∈ l ∧ e.1.LeadsAway p e.2}

theorem tail (h : InTurn p (a :: l)) : InTurn p l where
  isOf c hc := h.isOf c (List.mem_cons_of_mem a hc)
  sorted := (List.pairwise_cons.1 h.sorted).2
  apart c hc d hd := h.apart c (List.mem_cons_of_mem a hc) d (List.mem_cons_of_mem a hd)

/-- Repetitions are neighbours. -/
theorem not_mem (h : InTurn p (a :: b :: l)) (hne : a ≠ b) : a ∉ b :: l := by
  intro ha
  have hab := (List.pairwise_cons.1 h.sorted).1 b List.mem_cons_self
  rcases List.mem_cons.1 ha with rfl | ha
  · exact hne rfl
  · have hba := (List.pairwise_cons.1 h.tail.sorted).1 a ha
    exact hne (Std.LawfulEqCmp.eq_of_compare (Std.OrientedCmp.isLE_antisymm hab hba))

/-- **Nothing comes between a run and the one it leads away to.** -/
theorem eq_of_leadsAway (h : InTurn p (a :: b :: l)) (hne : a ≠ b) {c : Start} (hc : c ∈ b :: l)
    (haway : a.LeadsAway p c) : c = b := by
  have hb : b ∈ b :: l := List.mem_cons_self
  have hab := (List.pairwise_cons.1 h.sorted).1 b hb
  have hbc : (compare b c).isLE := by
    rcases List.mem_cons.1 hc with rfl | hc
    · exact Std.ReflCmp.isLE_rfl
    · exact (List.pairwise_cons.1 h.tail.sorted).1 c hc
  have ha := h.isOf a List.mem_cons_self
  have hstop : c.slot = a.stop := haway.slot_eq.trans ha.later_lastSlot
  have hblock : c.slot.blockId = a.slot.blockId := by rw [hstop]; rfl
  have hindex : c.slot.index = a.slot.index + a.length := by rw [hstop]; rfl
  obtain ⟨hbblock, hle, hle'⟩ := Slot.blockId_eq_of_isLE (Start.isLE_compare_slot hab)
    (Start.isLE_compare_slot hbc) hblock.symm
  have hbpos := (h.tail.isOf b hb).length_pos
  have hcpos := (h.tail.isOf c hc).length_pos
  -- `b` does not begin while `a` is in session, so it begins where `c` does
  have hafter : a.slot.index + a.length ≤ b.slot.index := by
    by_contra hlt
    refine hne (h.apart a List.mem_cons_self b (List.mem_cons_of_mem a hb) ?_)
    exact Start.overlaps_iff_lt.2 ⟨(hbblock.trans hblock).symm, by omega, by omega⟩
  exact h.tail.apart c hc b hb
    (Start.overlaps_iff_lt.2 ⟨hbblock.symm, by omega, by omega⟩)

/-- A repeated entry makes no difference. -/
theorem moves_cons_self : moves p (a :: a :: l) = moves p (a :: l) := by
  simp only [moves, List.mem_cons, or_self_left]

/-- **A run in front adds the move to its neighbour and no other.** -/
theorem moves_cons (h : InTurn p (a :: b :: l)) (hne : a ≠ b) : moves p (a :: b :: l) =
    {e | e = (a, b) ∧ a.LeadsAway p b} ∪ moves p (b :: l) := by
  ext ⟨c, d⟩
  simp only [moves, Set.mem_ofPred_eq, Set.mem_union, Prod.mk.injEq]
  constructor
  · rintro ⟨hc, hd, haway⟩
    -- nothing leads away to the run in front
    have hlater : d ∈ b :: l := by
      rcases List.mem_cons.1 hd with rfl | hd
      · refine absurd haway ((h.isOf c hc).not_leadsAway_of_isLE ?_)
        rcases List.mem_cons.1 hc with rfl | hc
        · exact Std.ReflCmp.isLE_rfl
        · exact (List.pairwise_cons.1 h.sorted).1 c hc
      · exact hd
    rcases List.mem_cons.1 hc with rfl | hc
    · cases h.eq_of_leadsAway hne hlater haway
      exact .inl ⟨⟨rfl, rfl⟩, haway⟩
    · exact .inr ⟨hc, hlater, haway⟩
  · rintro (⟨⟨rfl, rfl⟩, haway⟩ | ⟨hc, hd, haway⟩)
    · exact ⟨List.mem_cons_self, List.mem_cons_of_mem _ List.mem_cons_self, haway⟩
    · exact ⟨List.mem_cons_of_mem _ hc, List.mem_cons_of_mem _ hd, haway⟩

/-- **Looking at neighbours counts every move once.** -/
theorem encard_moves (h : InTurn p l) : (moves p l).encard = Schedule.countMoves p l := by
  induction l with
  | nil => simp [moves, Schedule.countMoves]
  | cons a l ih =>
    have ha := h.isOf a List.mem_cons_self
    cases l with
    | nil =>
      have hnone : moves p [a] = ∅ := Set.eq_empty_of_forall_notMem fun e he => by
        obtain ⟨hleft, hright, haway⟩ := he
        rw [List.mem_singleton.1 hleft, List.mem_singleton.1 hright] at haway
        exact ha.not_leadsAway_self haway
      rw [hnone, Set.encard_empty]
      rfl
    | cons b l =>
      rw [Schedule.countMoves, Nat.cast_add, ← ih h.tail]
      by_cases hne : a = b
      · subst hne
        rw [moves_cons_self, if_neg (mt ha.leadsAway_iff.2 ha.not_leadsAway_self), Nat.cast_zero,
          zero_add]
      · have hdisjoint : Disjoint {e | e = (a, b) ∧ a.LeadsAway p b} (moves p (b :: l)) := by
          rw [Set.disjoint_left]
          rintro e ⟨rfl, -⟩ hmem
          exact h.not_mem hne hmem.1
        rw [h.moves_cons hne, Set.encard_union_eq hdisjoint]
        congr 1
        by_cases haway : a.LeadsAway p b
        · rw [if_pos (ha.leadsAway_iff.1 haway)]
          simp [haway]
        · rw [if_neg (mt ha.leadsAway_iff.2 haway)]
          simp [haway]

end InTurn

/-! ## The moves of a teacher -/

namespace Schedule

theorem mem_startsOf_iff {teacher : TeacherId} :
    a ∈ s.startsOf teacher ↔ a ∈ s.starts ∧ teacher ∈ p.teachersOf a.sectionId := by
  rw [startsOf, (sorted_perm _).mem_iff, List.mem_flatMap]
  constructor
  · rintro ⟨c, hc, ha⟩
    obtain ⟨hcount, rfl⟩ := List.mem_replicate.1 ha
    exact ⟨hc, List.count_pos_iff.1 (Nat.pos_of_ne_zero hcount)⟩
  · rintro ⟨ha, hteaches⟩
    exact ⟨a, ha, List.mem_replicate.2 ⟨Nat.ne_of_gt (List.count_pos_iff.2 hteaches), rfl⟩⟩

namespace Coherent

variable (h : s.Coherent)

include h

theorem mem_activeTeachers_iff {teacher : TeacherId} :
    teacher ∈ s.activeTeachers ↔ ∃ a ∈ s.starts, teacher ∈ p.teachersOf a.sectionId := by
  rw [activeTeachers, mem_distinct, ← h.map_sectionId_starts, List.flatMap_map, List.mem_flatMap]

/-- The starts of a teacher are in turn if none is booked twice. -/
theorem inTurn_startsOf (hbusy : s.NoTeacherTwice) (teacher : TeacherId) :
    InTurn p (s.startsOf teacher) where
  isOf a ha := h.isOf_of_mem_startsOf ha
  sorted := pairwise_sorted _
  apart a ha b hb hover := by
    by_contra hne
    obtain ⟨hastarts, hateaches⟩ := mem_startsOf_iff.1 ha
    obtain ⟨hbstarts, hbteaches⟩ := mem_startsOf_iff.1 hb
    obtain ⟨slot, hslot⟩ := ((h.isOf_of_mem_startsOf ha).overlaps_iff
      (h.isOf_of_mem_startsOf hb)).1 hover
    refine hbusy a hastarts b hbstarts hne ?_ slot hslot
    exact List.any_eq_true.2 ⟨teacher, hateaches, List.contains_iff_mem.2 hbteaches⟩

theorem moves_eq : s.moves =
    {e | e.1 ∈ s.activeTeachers ∧ e.2 ∈ InTurn.moves p (s.startsOf e.1)} := by
  ext ⟨teacher, a, b⟩
  simp only [moves, InTurn.moves, Set.mem_ofPred_eq, mem_startsOf_iff, h.mem_activeTeachers_iff]
  constructor
  · intro hmove
    exact ⟨⟨a, hmove.mem_left, hmove.teaches_left⟩, ⟨hmove.mem_left, hmove.teaches_left⟩,
      ⟨hmove.mem_right, hmove.teaches_right⟩, hmove.leadsAway⟩
  · rintro ⟨-, ⟨hleft, hteaches⟩, ⟨hright, hteaches'⟩, haway⟩
    exact ⟨hleft, hright, hteaches, hteaches', haway⟩

/-- **Where no teacher is booked twice, the moves are counted exactly.** -/
theorem encard_moves (hbusy : s.NoTeacherTwice) : s.moves.encard = s.backToBackMoves := by
  rw [h.moves_eq]
  exact encard_pairs (nodup_distinct _) fun teacher _ =>
    (h.inTurn_startsOf hbusy teacher).encard_moves

end Coherent

end Schedule

/-- **In whatever can be reached without double booking, the moves are counted exactly.** -/
theorem Reachable.moves_counted_exactly (hnames : book.NamesPlaced p)
    (hdup : .duplicateSections ∈ book.rules) (hroom : .roomConflict ∈ book.rules)
    (hteacher : .teacherConflict ∈ book.rules) (h : Reachable book s) :
    s.moves.encard = s.backToBackMoves := by
  have hedits := h.edits_of_namesPlaced hdup hroom hnames
  exact (hedits.coherent hdup hroom .empty).encard_moves (hedits.noTeacherTwice hdup hroom hteacher)

/-! ## A campus of two buildings -/

namespace Campus

/-- A studio and a lab in two buildings; a course lists one of its two teachers twice. -/
def record : ProgramRecord where
  teachers := [{ id := ⟨1⟩ }, { id := ⟨2⟩ }]
  buildings := [{ id := ⟨1⟩ }, { id := ⟨2⟩ }]
  rooms := [{ id := ⟨1⟩, capacity := 10, buildingId := some ⟨1⟩ },
    { id := ⟨2⟩, capacity := 10, buildingId := some ⟨2⟩ }]
  courses := [{ id := ⟨1⟩, estimatedSize := 5, maxSize := 5, teacherIds := [⟨1⟩, ⟨2⟩, ⟨1⟩] }]
  sections := [
    { id := ⟨1⟩, courseId := ⟨1⟩, length := 2 },
    { id := ⟨2⟩, courseId := ⟨1⟩, length := 1 }]
  blocks := [{ id := ⟨1⟩, periods := [{ id := ⟨1⟩ }, { id := ⟨2⟩ }, { id := ⟨3⟩ }] }]

def program : Program := ⟨record, by rfl⟩

/-- The first section in the studio for two periods. -/
def drawing : Start := ⟨⟨⟨1⟩, 0⟩, ⟨1⟩, ⟨1⟩, ⟨1⟩, 2⟩

/-- The second section in the lab right after. -/
def printing : Start := ⟨⟨⟨1⟩, 2⟩, ⟨2⟩, ⟨2⟩, ⟨3⟩, 1⟩

theorem isOf_drawing : drawing.IsOf program := by rfl

theorem isOf_printing : printing.IsOf program := by rfl

def config : RuleConfig := { rules := [.duplicateSections, .roomConflict, .teacherConflict] }

def held : Schedule program :=
  (config.rulebook.assign (config.rulebook.assign (.empty program) drawing).2 printing).2

theorem reachable_held : Reachable config.rulebook held :=
  (Reaches.refl.assign trivial isOf_drawing).assign trivial isOf_printing

theorem starts_held : held.starts = [drawing, printing] := by decide +kernel

theorem startsOf_held {teacher : TeacherId} {l : List Start}
    (hl : (held.starts.flatMap fun c =>
      List.replicate ((program.teachersOf c.sectionId).count teacher) c) = l)
    (hsorted : l.Pairwise fun a b => (compare a b).isLE) : held.startsOf teacher = l := by
  rw [Schedule.startsOf, hl]
  exact List.mergeSort_of_pairwise hsorted

theorem backToBackMoves_held : held.backToBackMoves = 2 := by
  have hteachers : held.activeTeachers = [⟨1⟩, ⟨2⟩] := by decide +kernel
  have htwice : held.startsOf ⟨1⟩ = [drawing, drawing, printing, printing] :=
    startsOf_held (by decide +kernel) (by decide +kernel)
  have honce : held.startsOf ⟨2⟩ = [drawing, printing] :=
    startsOf_held (by decide +kernel) (by decide +kernel)
  rw [Schedule.backToBackMoves, hteachers, List.map_cons, List.map_singleton, htwice, honce]
  decide +kernel

end Campus

open Campus in
/-- Both teachers move once, also the one who is listed twice. -/
theorem moves_counted_exactly_campus : held.moves.encard = 2 ∧
    (⟨1⟩, drawing, printing) ∈ held.moves := by
  have hcount := Reachable.moves_counted_exactly config.isBuiltIn_rulebook.namesPlaced
    List.mem_cons_self (List.mem_cons_of_mem _ List.mem_cons_self)
    (List.mem_cons_of_mem _ (List.mem_cons_of_mem _ List.mem_cons_self)) reachable_held
  rw [backToBackMoves_held] at hcount
  refine ⟨hcount, ?_, ?_, by decide, by decide, rfl, Program.areApart_iff_isMove.2 (by decide)⟩
  · rw [starts_held]
    exact List.mem_cons_self
  · rw [starts_held]
    exact List.mem_cons_of_mem _ List.mem_cons_self

end Timetable

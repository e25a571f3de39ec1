import Timetable.Proofs.Reachable

/-!
# No double booking

Whatever is done to a schedule under a rulebook that forbids to place a section twice and to have two
sections in a room, the two indexes of the schedule go on telling the same (`IndexesAgree`), and no
room hosts two sections at a slot (`NoRoomTwice`).  If the rulebook also minds the teachers, none of
them teaches two sections at a slot (`NoTeacherTwice`).  `Reachable.no_double_booking` says so for
all schedules that can be reached.

The first two are what coherence means.  The third is preserved by single edits in the same way: a
start that is added is valid, so the rule found nobody who is busy, and because the schedule is
coherent the rule did not miss anybody.
-/

set_option autoImplicit false

namespace Timetable

variable {p : Program} {book : Rulebook} {s t : Schedule p}

namespace Schedule

/-- The index of the sections and those of the rooms tell the same: a section is placed with a start
exactly if it is found in the room of the start at its slot, and nothing else is found in a room. -/
structure IndexesAgree (s : Schedule p) : Prop where
  isOf : ∀ {id a}, s.startOf? id = some a → a.IsOf p
  startOf?_eq_some_iff : ∀ {id a}, a.IsOf p →
    (s.startOf? id = some a ↔ a.sectionId = id ∧ s.sectionAt? a.roomId a.slot = some id)
  mem_starts_of_mem_index : ∀ {room index slot id}, (room, index) ∈ s.rooms.toList →
    (slot, id) ∈ index.toList → ∃ a ∈ s.starts, a.roomId = room ∧ a.slot = slot ∧ a.sectionId = id

/-- Two different starts in a room have no slot in common. -/
def NoRoomTwice (s : Schedule p) : Prop := ∀ a ∈ s.starts, ∀ b ∈ s.starts, a ≠ b →
  a.roomId = b.roomId → ∀ slot, ¬ (a.covers slot ∧ b.covers slot)

/-- Two different starts that share a teacher have no slot in common. -/
def NoTeacherTwice (s : Schedule p) : Prop := ∀ a ∈ s.starts, ∀ b ∈ s.starts, a ≠ b →
  p.shareTeacher a.sectionId b.sectionId → ∀ slot, ¬ (a.covers slot ∧ b.covers slot)

namespace Coherent

theorem indexesAgree (h : s.Coherent) : s.IndexesAgree where
  isOf ha := (h.isOf ha).1
  startOf?_eq_some_iff {id a} hof := by
    constructor
    · intro ha
      exact ⟨(h.isOf ha).2, h.sectionAt?_eq_some_iff.2 ⟨a, ha, rfl, rfl⟩⟩
    · rintro ⟨hid, hat⟩
      obtain ⟨b, hb, hr, hs⟩ := h.sectionAt?_eq_some_iff.1 hat
      obtain ⟨hbof, hbid⟩ := h.isOf hb
      rw [hof.ext hbof (hid.trans hbid.symm) hr.symm hs.symm, hb]
  mem_starts_of_mem_index {room index slot id} hroom hslot := by
    have hindex := (OrderedMap.mem_toList_iff h.rooms).1 hroom
    have hget := (OrderedMap.mem_toList_iff (h.index hindex)).1 hslot
    obtain ⟨a, ha, hr, hs⟩ := h.sectionAt?_eq_some_iff.1
      (Option.bind_eq_some_iff.2 ⟨index, hindex, hget⟩)
    exact ⟨a, h.mem_starts_iff.2 (h.holds_of_startOf? ha), hr, hs, (h.isOf ha).2⟩

theorem noRoomTwice (h : s.Coherent) : s.NoRoomTwice := by
  intro a ha b hb hne hr slot hslot
  have ha := h.mem_starts_iff.1 ha
  have hb := h.mem_starts_iff.1 hb
  refine hne (h.apart ha hb hr ?_)
  exact ((h.isOf_of_holds ha).overlaps_iff (h.isOf_of_holds hb)).2 ⟨slot, hslot⟩

end Coherent

end Schedule

/-! ## Teachers -/

/-- A start that may be placed keeps clear of the starts that share a teacher with it. -/
theorem Rulebook.not_covers_of_isValid (h : s.Coherent) (hdup : .duplicateSections ∈ book.rules)
    (hteacher : .teacherConflict ∈ book.rules) {c a : Start} (hc : c.IsOf p)
    (hv : (book.validate s c).isValid) (ha : s.Holds a)
    (hshare : p.shareTeacher c.sectionId a.sectionId) (slot : Slot) :
    ¬ (a.covers slot ∧ c.covers slot) := by
  intro hslot
  refine (isValid_validate_iff.1 hv).2 _ hteacher a ((Rule.names_teacherConflict_iff h hc).2
    ⟨ha, ?_, ha.sectionId_ne (startOf?_eq_none_of_isValid hdup hv), hshare⟩)
  exact ((h.isOf_of_holds ha).overlaps_iff hc).2 ⟨slot, hslot⟩

theorem Edits.noTeacherTwice (hdup : .duplicateSections ∈ book.rules)
    (hroom : .roomConflict ∈ book.rules) (hteacher : .teacherConflict ∈ book.rules)
    (h : Edits book (.empty p) s) : s.NoTeacherTwice := by
  refine Edits.invariant hdup hroom
    (P := fun l => ∀ a ∈ l, ∀ b ∈ l, a ≠ b → p.shareTeacher a.sectionId b.sectionId →
      ∀ slot, ¬ (a.covers slot ∧ b.covers slot))
    (fun a ha => absurd ha List.not_mem_nil)
    (fun hlm hm a ha b hb => hm a (hlm.subset ha) b (hlm.subset hb)) (fun {t c} ht hc _ hv ih => ?_) h
  intro a ha b hb hne hshare slot hslot
  rw [List.mem_cons] at ha hb
  rcases ha with rfl | ha <;> rcases hb with rfl | hb
  · exact hne rfl
  · exact Rulebook.not_covers_of_isValid ht hdup hteacher hc hv (ht.mem_starts_iff.1 hb) hshare
      slot ⟨hslot.2, hslot.1⟩
  · exact Rulebook.not_covers_of_isValid ht hdup hteacher hc hv (ht.mem_starts_iff.1 ha)
      ((p.shareTeacher_comm _ _).1 hshare) slot hslot
  · exact ih a ha b hb hne hshare slot hslot

/-! ## Schedules that can be reached -/

/-- **No schedule that can be reached books anything twice.** -/
theorem Reachable.no_double_booking (hbook : book.IsBuiltIn)
    (hdup : .duplicateSections ∈ book.rules) (hroom : .roomConflict ∈ book.rules)
    (h : Reachable book s) : s.IndexesAgree ∧ s.NoRoomTwice ∧
      (.teacherConflict ∈ book.rules → s.NoTeacherTwice) := by
  have hs := h.coherent hdup hroom hbook
  refine ⟨hs.indexesAgree, hs.noRoomTwice, fun hteacher => ?_⟩
  exact (h.edits hdup hroom hbook).noTeacherTwice hdup hroom hteacher

/-! ## A course and its sequel

The smallest program in which placements depend on each other: one teacher gives two courses in one
room on a day of two periods, and the second course asks for the first one. -/

namespace Sequel

def record : ProgramRecord where
  teachers := [{ id := ⟨1⟩ }]
  rooms := [{ id := ⟨1⟩, capacity := 10 }]
  courses := [
    { id := ⟨1⟩, estimatedSize := 5, maxSize := 5, teacherIds := [⟨1⟩] },
    { id := ⟨2⟩, estimatedSize := 5, maxSize := 5, teacherIds := [⟨1⟩], prerequisiteIds := [⟨1⟩] }]
  sections := [{ id := ⟨1⟩, courseId := ⟨1⟩, length := 1 }, { id := ⟨2⟩, courseId := ⟨2⟩, length := 1 }]
  blocks := [{ id := ⟨1⟩, periods := [{ id := ⟨1⟩ }, { id := ⟨2⟩ }] }]

def program : Program := ⟨record, by rfl⟩

/-- The first course in the first period. -/
def first : Start := ⟨⟨⟨1⟩, 0⟩, ⟨1⟩, ⟨1⟩, ⟨1⟩, 1⟩

/-- The second course in the second period. -/
def second : Start := ⟨⟨⟨1⟩, 1⟩, ⟨1⟩, ⟨2⟩, ⟨2⟩, 1⟩

/-- The second course in the first period, where the first one is. -/
def moved : Start := ⟨⟨⟨1⟩, 0⟩, ⟨1⟩, ⟨2⟩, ⟨1⟩, 1⟩

theorem isOf_first : first.IsOf program := by rfl

theorem isOf_second : second.IsOf program := by rfl

/-- The rules against double booking and some others. -/
def bookOf (others : List RuleKind) : Rulebook :=
  let config : RuleConfig :=
    { rules := .duplicateSections :: .roomConflict :: .teacherConflict :: others }
  config.rulebook

theorem isUnpinned_bookOf (others : List RuleKind) : (bookOf others).IsUnpinned :=
  RuleConfig.isUnpinned_rulebook _ rfl

theorem duplicateSections_mem (others : List RuleKind) :
    .duplicateSections ∈ (bookOf others).rules := List.mem_cons_self

theorem roomConflict_mem (others : List RuleKind) :
    .roomConflict ∈ (bookOf others).rules := List.mem_cons_of_mem _ List.mem_cons_self

theorem teacherConflict_mem (others : List RuleKind) :
    .teacherConflict ∈ (bookOf others).rules :=
  List.mem_cons_of_mem _ (List.mem_cons_of_mem _ List.mem_cons_self)

/-- There are no other rules. -/
theorem rule_not_mem {others : List RuleKind} {kind : RuleKind}
    (h : kind ∉ .duplicateSections :: .roomConflict :: .teacherConflict :: others) :
    kind.rule {} .none 0 ∉ (bookOf others).rules := fun hmem => h (RuleConfig.mem_of_rule_mem hmem)

/-- Both courses are placed, one after the other. -/
def bothPlaced (book : Rulebook) : Schedule program :=
  (book.assign (book.assign (.empty program) first).2 second).2

theorem reaches_bothPlaced (book : Rulebook) {allowed : Operation → Prop}
    (hfirst : allowed (.assign first)) (hsecond : allowed (.assign second)) :
    Reaches book allowed (.empty program) (bothPlaced book) :=
  (Reaches.refl.assign hfirst isOf_first).assign hsecond isOf_second

end Sequel

theorem no_double_booking_bothPlaced :
    (Sequel.bothPlaced (Sequel.bookOf [])).starts = [Sequel.first, Sequel.second] ∧
      (Sequel.bothPlaced (Sequel.bookOf [])).IndexesAgree ∧
      (Sequel.bothPlaced (Sequel.bookOf [])).NoRoomTwice ∧
      (Sequel.bothPlaced (Sequel.bookOf [])).NoTeacherTwice := by
  obtain ⟨hagree, hroom, hteacher⟩ := Reachable.no_double_booking
    (Sequel.isUnpinned_bookOf []).isBuiltIn (Sequel.duplicateSections_mem [])
    (Sequel.roomConflict_mem []) (Sequel.reaches_bothPlaced (Sequel.bookOf []) trivial trivial)
  exact ⟨by decide +kernel, hagree, hroom, hteacher (Sequel.teacherConflict_mem [])⟩

end Timetable

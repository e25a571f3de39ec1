import Timetable.Proofs.Freeing
import Timetable.Proofs.Replay

/-!
# Forcing a start

A start that is forced takes out what is in its way.  What that is, is asked once, before anything
is taken out, and the start is asked about again afterwards.

* `Reachable.force_evicts_exactly`: either the report is valid, and then what was placed and not
  named is placed, and the start; or the report is not valid, and then nothing has changed.  Both
  indexes say so, and the rooms that have nothing to do with it keep the index they had
  (`rooms_get?_force`).
* `Reachable.force_succeeds`: asking once is enough.  If no fault is found with the start itself, it
  is placed.  The exception are rulebooks that mind both prerequisites and lunches, as a lunch may
  cost the start something that has to come before it; what the other rules name either overlaps the
  start or is its own section (`RuleKind.overlaps_of_names`).
-/

set_option autoImplicit false

namespace Timetable

variable {p : Program} {book : Rulebook} {s : Schedule p} {c a : Start}

/-! ## What both indexes hold -/

namespace Schedule

/-- Both indexes hold the starts of a list and nothing else. -/
structure Consists (s : Schedule p) (l : List Start) : Prop where
  starts_perm : s.starts.Perm l
  startOf?_eq_some_iff : ∀ {id a}, s.startOf? id = some a ↔ a ∈ l ∧ a.sectionId = id
  sectionAt?_eq_some_iff : ∀ {room slot id}, s.sectionAt? room slot = some id ↔
    ∃ a ∈ l, a.sectionId = id ∧ a.roomId = room ∧ a.slot = slot

theorem Coherent.consists (h : s.Coherent) {l : List Start} (hl : s.starts.Perm l) :
    s.Consists l := by
  have hstart : ∀ {id a}, s.startOf? id = some a ↔ a ∈ l ∧ a.sectionId = id := by
    intro id a
    rw [h.startOf?_eq_some_iff, ← hl.mem_iff, h.mem_starts_iff]
  refine ⟨hl, hstart, ?_⟩
  intro room slot id
  rw [h.sectionAt?_eq_some_iff]
  simp only [hstart, and_assoc]

/-! ## Rooms that are left alone -/

namespace IsOrdered

theorem rooms_get?_add (h : s.IsOrdered) {room : RoomId} (hroom : room ≠ c.roomId) :
    (s.add c).rooms.get? room = s.rooms.get? room := by
  simp only [Schedule.add, OrderedMap.get?_insert h.rooms, if_neg hroom]

theorem rooms_get?_remove (h : s.IsOrdered) {room : RoomId} (hroom : room ≠ a.roomId) :
    (s.remove a).rooms.get? room = s.rooms.get? room := by
  simp only [Schedule.remove]
  split
  · rfl
  · simp only [OrderedMap.get?_insert h.rooms, if_neg hroom]

theorem foldl_remove (h : s.IsOrdered) {room : RoomId} {l : List Start}
    (hroom : ∀ a ∈ l, room ≠ a.roomId) : (l.foldl Schedule.remove s).IsOrdered ∧
      (l.foldl Schedule.remove s).rooms.get? room = s.rooms.get? room := by
  induction l generalizing s with
  | nil => exact ⟨h, rfl⟩
  | cons a l ih =>
    obtain ⟨hrest, hkeep⟩ := ih (h.remove a) fun b hb => hroom b (List.mem_cons_of_mem a hb)
    exact ⟨hrest, hkeep.trans (h.rooms_get?_remove (hroom a List.mem_cons_self))⟩

end IsOrdered

end Schedule

/-! ## The report on a forced start -/

namespace Rulebook

theorem not_isValid_force_of_not_isLocallyValid (h : ¬ (book.validate s c).isLocallyValid) :
    ¬ (book.force s c).1.isValid := by
  rw [force, if_neg h]
  exact fun hv => h (isLocallyValid_of_isValid hv)

theorem force_eq_of_isLocallyValid (h : (book.validate s c).isLocallyValid) :
    (book.force s c).1 = book.validate (book.cleared s c) c := by
  rw [force, if_pos h]
  rfl

/-- **The report says whether the start was placed.** -/
theorem isValid_force_iff : (book.force s c).1.isValid ↔ (book.validate s c).isLocallyValid ∧
    (book.validate (book.cleared s c) c).isValid := by
  by_cases h : (book.validate s c).isLocallyValid
  · rw [force_eq_of_isLocallyValid h, and_iff_right h]
  · exact ⟨fun hv => absurd hv (not_isValid_force_of_not_isLocallyValid h), fun hv => absurd hv.1 h⟩

theorem force_of_isValid_force (h : (book.force s c).1.isValid) :
    (book.force s c).2 = (book.cleared s c).add c :=
  force_of_isValid (isValid_force_iff.1 h).1 (isValid_force_iff.1 h).2

/-- If the start was not placed, nothing has changed. -/
theorem force_of_not_isValid_force (h : ¬ (book.force s c).1.isValid) : (book.force s c).2 = s := by
  rcases book.force_cases s c with he | ⟨hlocal, hv, -⟩
  · exact he
  · exact absurd (isValid_force_iff.2 ⟨hlocal, hv⟩) h

/-- Rooms in which nothing is evicted and nothing placed keep their index. -/
theorem rooms_get?_force (hs : s.IsOrdered) (h : (book.force s c).1.isValid) {room : RoomId}
    (hc : room ≠ c.roomId) (hevictions : ∀ a ∈ (book.validate s c).evictions, room ≠ a.roomId) :
    (book.force s c).2.rooms.get? room = s.rooms.get? room := by
  obtain ⟨hcleared, hkeep⟩ := hs.foldl_remove hevictions
  rw [force_of_isValid_force h, cleared, hcleared.rooms_get?_add hc, hkeep]

theorem starts_cleared (hbook : book.IsBuiltIn) (hs : s.Coherent) (hc : c.IsOf p) :
    (book.cleared s c).starts.Perm (s.starts.filter (· ∉ (book.validate s c).evictions)) := by
  obtain ⟨hcleared, hholds⟩ := coherent_cleared hbook hs hc
  refine (List.perm_ext_iff_of_nodup hcleared.nodup_starts (hs.nodup_starts.filter _)).2 fun a => ?_
  rw [hcleared.mem_starts_iff, hholds, List.mem_filter, hs.mem_starts_iff, decide_eq_true_eq]

end Rulebook

/-- **Forcing a start evicts exactly what is named, or changes nothing.** -/
theorem Reachable.force_evicts_exactly (hbook : book.IsBuiltIn)
    (hdup : .duplicateSections ∈ book.rules) (hroom : .roomConflict ∈ book.rules)
    (h : Reachable book s) (hc : c.IsOf p) :
    (∀ a ∈ (book.validate s c).evictions, a ∈ s.starts) ∧
    ((book.force s c).1.isValid →
      (book.force s c).2.Consists
        (c :: s.starts.filter (· ∉ (book.validate s c).evictions)) ∧
      ∀ room, room ≠ c.roomId → (∀ a ∈ (book.validate s c).evictions, room ≠ a.roomId) →
        (book.force s c).2.rooms.get? room = s.rooms.get? room) ∧
    (¬ (book.force s c).1.isValid → (book.force s c).2 = s) := by
  have hs := h.coherent hdup hroom hbook
  obtain ⟨hcleared, -⟩ := Rulebook.coherent_cleared hbook hs hc
  refine ⟨fun a ha => ?_, fun hv => ⟨?_, fun room hr hev => ?_⟩,
    Rulebook.force_of_not_isValid_force⟩
  · exact hs.mem_starts_iff.2 (Rulebook.holds_of_mem_evictions hbook hs hc ha)
  · have hvalid := (Rulebook.isValid_force_iff.1 hv).2
    rw [Rulebook.force_of_isValid_force hv]
    refine (Rulebook.coherent_add hcleared hdup hroom hc hvalid).consists ?_
    exact (Rulebook.starts_add hcleared hdup hroom hc hvalid).trans
      ((Rulebook.starts_cleared hbook hs hc).cons c)
  · exact Rulebook.rooms_get?_force hs.toIsOrdered hv hr hev

namespace Sequel

/-- The first course in the second period, where the second one is. -/
def late : Start := ⟨⟨⟨1⟩, 1⟩, ⟨1⟩, ⟨1⟩, ⟨2⟩, 1⟩

theorem not_lunch_mem : .lunch ∉ (bookOf [.prerequisites]).rules :=
  @rule_not_mem _ .lunch (by decide)

end Sequel

theorem force_evicts_exactly_moved :
    ((Sequel.bookOf []).validate (Sequel.bothPlaced (Sequel.bookOf [])) Sequel.moved).evictions =
        [Sequel.first, Sequel.second] ∧
      ((Sequel.bookOf []).force (Sequel.bothPlaced (Sequel.bookOf [])) Sequel.moved).2.Consists
        [Sequel.moved] := by
  obtain ⟨-, hvalid, -⟩ := Reachable.force_evicts_exactly
    (Sequel.isUnpinned_bookOf []).isBuiltIn (Sequel.duplicateSections_mem [])
    (Sequel.roomConflict_mem []) (Sequel.reaches_bothPlaced (Sequel.bookOf []) trivial trivial)
    (show Sequel.moved.IsOf Sequel.program by rfl)
  exact ⟨by decide +kernel, (hvalid (by decide +kernel)).1⟩

/-! ## What is over before a start -/

/-- A run that overlaps another one is not over before it. -/
theorem Start.not_precedes_of_overlaps (h : a.overlaps c) : ¬ a.lastSlot.precedes c.slot := by
  intro hends
  obtain ⟨hblock, hlt, hlt'⟩ := Start.overlaps_iff_lt.1 h
  have hindex : c.slot.index ≤ a.slot.index + (a.length - 1) := by omega
  have hle : (compare c.slot a.lastSlot).isLE :=
    Slot.isLE_compare_iff.2 (.inr ⟨hblock.symm, hindex⟩)
  rw [Std.OrientedCmp.gt_of_lt (Ordering.isLT_iff_eq_lt.1 hends)] at hle
  cases hle

namespace RuleKind

variable {bounds : SizeBounds} {pins : Pins} {seed : UInt64} {kind : RuleKind}

/-- **What is named overlaps the start or is its own section**, unless a lunch is at stake. -/
theorem overlaps_of_names (hs : s.Coherent) (hc : c.IsOf p) (hkind : kind ≠ .lunch)
    (h : (kind.rule bounds pins seed).Names s c a) : a.sectionId = c.sectionId ∨ a.overlaps c := by
  cases kind with
  | duplicateSections => exact .inl (hs.isOf (Rule.names_duplicateSections_iff.1 h)).2
  | teacherConflict => exact .inr ((Rule.names_teacherConflict_iff hs hc).1 h).2.1
  | localConflict => exact absurd h Rule.not_names_localConflict
  | roomConflict => exact .inr ((Rule.names_roomConflict_iff hs hc).1 h).2.1
  | roomProperties => exact absurd h Rule.not_names_roomProperties
  | resources => exact .inr (Rule.overlaps_of_names_resources hs hc h).2
  | prerequisites => exact absurd h Rule.not_names_prerequisites
  | gradeRange => exact absurd h Rule.not_names_gradeRange
  | teacherGroupCap => exact .inr (Rule.overlaps_of_names_teacherGroupCap hs hc h).2
  | lunch => exact absurd rfl hkind
  | locked => exact absurd h Rule.not_names_locked

end RuleKind

theorem Rule.permits_prerequisites_iff : prerequisites.Permits s c ↔
    ∀ course ∈ (p.courseOf c.sectionId).prerequisiteIds, endsBefore s course c.slot := by
  rw [← accepts_prerequisites_iff, Accepts, and_iff_left fun _ => not_names_prerequisites]

namespace Rulebook

/-- **Evictions leave the prerequisites of a start in place**, unless a lunch is at stake. -/
theorem permits_prerequisites_cleared (hbook : book.IsBuiltIn) (hs : s.Coherent) (hc : c.IsOf p)
    (hlunch : .lunch ∉ book.rules) (h : Rule.prerequisites.Permits s c) :
    Rule.prerequisites.Permits (book.cleared s c) c := by
  obtain ⟨hcleared, hholds⟩ := coherent_cleared hbook hs hc
  rw [Rule.permits_prerequisites_iff] at h ⊢
  intro course hcourse
  obtain ⟨a, ha, hid, hends⟩ := (Rule.endsBefore_iff hs).1 (h course hcourse)
  refine (Rule.endsBefore_iff hcleared).2 ⟨a, ?_, hid, hends⟩
  rw [hcleared.mem_starts_iff, hholds, ← hs.mem_starts_iff]
  refine ⟨ha, fun hev => ?_⟩
  obtain ⟨r, hr, hnames⟩ := mem_evictions_validate_iff.1 hev
  obtain ⟨kind, bounds, pins, seed, rfl⟩ := hbook r hr
  have hkind : kind ≠ .lunch := by
    rintro rfl
    exact hlunch hr
  rcases RuleKind.overlaps_of_names hs hc hkind hnames with hsame | hoverlaps
  · exact p.not_mem_sectionsOfCourse hcourse (hsame ▸ hid)
  · exact Start.not_precedes_of_overlaps hoverlaps hends

/-- **A start with no fault of its own is valid once its evictions are made.** -/
theorem isValid_validate_cleared (hbook : book.IsBuiltIn) (hdup : .duplicateSections ∈ book.rules)
    (hlunch : .prerequisites ∈ book.rules → .lunch ∉ book.rules) (hs : s.Coherent) (hc : c.IsOf p)
    (h : (book.validate s c).isLocallyValid) :
    (book.validate (book.cleared s c) c).isValid := by
  obtain ⟨hcleared, hholds⟩ := coherent_cleared hbook hs hc
  have hless : (book.cleared s c).HoldsLess s c := fun b hb _ => ((hholds b).1 hb).1
  refine isValid_of_spares hbook hs hcleared hc hless ?_ (fun r hr b hb _ hnames => ?_) ?_
  · -- the section of the start itself was taken out, too
    refine hcleared.startOf?_eq_none fun a ha hid => ?_
    obtain ⟨hold, hev⟩ := (hholds a).1 ha
    rw [Schedule.Holds, hid] at hold
    exact hev (mem_evictions_validate_iff.2 ⟨_, hdup, Rule.names_duplicateSections_iff.2 hold⟩)
  · exact ((hholds b).1 hb).2 (mem_evictions_validate_iff.2 ⟨r, hr, hnames⟩)
  · exact isLocallyValid_of_holdsLess hbook hs hcleared hless
      (fun hpre => permits_prerequisites_cleared hbook hs hc (hlunch hpre)) h

end Rulebook

/-- **A start with no fault of its own can be forced**, unless the rulebook minds both prerequisites
and lunches. -/
theorem Reachable.force_succeeds (hbook : book.IsBuiltIn)
    (hdup : .duplicateSections ∈ book.rules) (hroom : .roomConflict ∈ book.rules)
    (hlunch : ¬ (.prerequisites ∈ book.rules ∧ .lunch ∈ book.rules)) (h : Reachable book s)
    (hc : c.IsOf p) (hlocal : (book.validate s c).isLocallyValid) :
    (book.force s c).1.isValid ∧ (book.force s c).2.startOf? c.sectionId = some c := by
  have hs := h.coherent hdup hroom hbook
  obtain ⟨hcleared, -⟩ := Rulebook.coherent_cleared hbook hs hc
  have hvalid := Rulebook.isValid_validate_cleared hbook hdup (not_and.1 hlunch) hs hc hlocal
  have hforce := Rulebook.isValid_force_iff.2 ⟨hlocal, hvalid⟩
  refine ⟨hforce, ?_⟩
  rw [Rulebook.force_of_isValid_force hforce]
  exact (Rulebook.holds_add_of_isValid hcleared hdup hvalid).2 (.inl rfl)

theorem force_succeeds_late :
    ((Sequel.bookOf [.prerequisites]).force
        (Sequel.bothPlaced (Sequel.bookOf [.prerequisites])) Sequel.late).1.isValid ∧
      ((Sequel.bookOf [.prerequisites]).force
        (Sequel.bothPlaced (Sequel.bookOf [.prerequisites])) Sequel.late).2.startOf? ⟨1⟩ =
          some Sequel.late :=
  Reachable.force_succeeds (Sequel.isUnpinned_bookOf _).isBuiltIn (Sequel.duplicateSections_mem _)
    (Sequel.roomConflict_mem _) (fun h => Sequel.not_lunch_mem h.2)
    (Sequel.reaches_bothPlaced _ trivial trivial) (by rfl) (by decide +kernel)

end Timetable

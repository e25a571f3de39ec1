import Mathlib.Data.Set.Function
import Timetable.Proofs.Strict.Program

/-!
# The timeline and the directories of a program

A program can be asked from both sides.  A period has a slot, and at a slot there is a period; a
section belongs to a course and its teachers, and these have their sections.  The answers come from
different places: the slot of a period is noted when the blocks are gone through, the period at a
slot is read off the list of its block, and the sections of a teacher are listed in a directory.
`Program.indexes_exact` says that the two sides agree.

* `Program.bijOn_slotOf`, `Program.periodAt?_eq_some_iff`: periods and the slots of the blocks
  correspond to each other one to one.
* `Program.map_some_of_tail?`: the periods from a period on are those at the slots from its slot on.
* `Program.count_sectionsOfTeacher`, `Program.count_groupsOf`: how often a directory lists something.

All of it rests on identifiers being unique, those of periods across all blocks.
-/

set_option autoImplicit false

namespace Timetable

/-! ## Counting in a directory -/

/-- A directory lists values of items only. -/
theorem flatMap_replicate_subset {α β : Type} {f : α → β} {n : α → Nat} {l : List α} :
    (l.flatMap fun y => List.replicate (n y) (f y)) ⊆ l.map f := by
  intro b hb
  obtain ⟨y, hy, hfy⟩ := List.mem_flatMap.1 hb
  exact List.mem_map.2 ⟨y, hy, (List.eq_of_mem_replicate hfy).symm⟩

/-- If no two items share their value, a directory lists a value as often as the key is among the
keys of its item. -/
theorem count_flatMap_replicate {α β : Type} [DecidableEq β] {f : α → β} {n : α → Nat} {l : List α}
    (h : (l.map f).Nodup) {x : α} (hx : x ∈ l) :
    (l.flatMap fun y => List.replicate (n y) (f y)).count (f x) = n x := by
  induction l with
  | nil => exact absurd hx List.not_mem_nil
  | cons y l ih =>
    obtain ⟨hy, hl⟩ := List.nodup_cons.1 h
    rw [List.flatMap_cons, List.count_append, List.count_replicate]
    rcases List.mem_cons.1 hx with rfl | hx
    · have hrest : f x ∉ l.flatMap fun y => List.replicate (n y) (f y) :=
        fun hmem => hy (flatMap_replicate_subset hmem)
      simp [List.count_eq_zero.2 hrest]
    · have hne : f y ≠ f x := fun heq => hy (heq ▸ List.mem_map_of_mem hx)
      simp [hne, ih hl hx]

namespace Program

variable (p : Program)

/-! ## Periods and slots -/

/-- The identifiers of the periods. -/
def periodIds : Set PeriodId := {id | ∃ q ∈ p.periods, q.id = id}

/-- The places within the blocks. -/
def slots : Set Slot := {slot | ∃ b ∈ p.blocks, b.id = slot.blockId ∧ slot.index < b.length}

theorem slotOf_eq {q : Period} (hq : q ∈ p.periods) : p.slotOf q.id = q.slot := by
  rw [slotOf, period, p.period?_eq_some_iff.2 ⟨hq, rfl⟩, Option.getD_some]

/-- **The period at a slot is the one whose slot it is.** -/
theorem periodAt?_eq_some_iff {slot : Slot} {id : PeriodId} :
    p.periodAt? slot = some id ↔ id ∈ p.periodIds ∧ p.slotOf id = slot := by
  constructor
  · intro h
    obtain ⟨q, hq, hslot⟩ := p.exists_period_of_periodAt? h
    obtain ⟨hmem, rfl⟩ := p.period?_eq_some_iff.1 hq
    exact ⟨⟨q, hmem, rfl⟩, (p.slotOf_eq hmem).trans hslot⟩
  · rintro ⟨⟨q, hq, rfl⟩, rfl⟩
    rw [p.slotOf_eq hq]
    exact p.periodAt?_slot hq

/-- There is a period exactly at the slots within the blocks. -/
theorem exists_periodAt?_iff {slot : Slot} :
    (∃ id, p.periodAt? slot = some id) ↔ slot ∈ p.slots := by
  constructor
  · rintro ⟨id, h⟩
    obtain ⟨b, hb, hid⟩ := Option.bind_eq_some_iff.1 h
    obtain ⟨hmem, hblock⟩ := p.block?_eq_some_iff.1 hb
    exact ⟨b, hmem, hblock, (List.getElem?_eq_some_iff.1 hid).1⟩
  · rintro ⟨b, hb, hblock, hlt⟩
    rw [periodAt?, p.block?_eq_some_iff.2 ⟨hb, hblock⟩]
    exact ⟨_, List.getElem?_eq_getElem hlt⟩

/-- **The periods correspond to the slots within the blocks one to one.** -/
theorem bijOn_slotOf : Set.BijOn p.slotOf p.periodIds p.slots := by
  have hat : ∀ {id}, id ∈ p.periodIds → p.periodAt? (p.slotOf id) = some id := fun hid =>
    p.periodAt?_eq_some_iff.2 ⟨hid, rfl⟩
  refine ⟨fun id hid => ?_, fun id hid id' hid' heq => ?_, fun slot hslot => ?_⟩
  · exact p.exists_periodAt?_iff.1 ⟨id, hat hid⟩
  · have heq : p.slotOf id = p.slotOf id' := heq
    have hsame := hat hid
    rw [heq, hat hid'] at hsame
    exact (Option.some.inj hsame).symm
  · obtain ⟨id, hid⟩ := p.exists_periodAt?_iff.2 hslot
    exact ⟨id, p.periodAt?_eq_some_iff.1 hid⟩

/-- The periods from a period on are not to be had if they would go past the end of the block. -/
theorem tail?_eq_none_iff {id : PeriodId} {count : Nat} : p.tail? id count = none ↔
    (p.block (p.slotOf id).blockId).length < (p.slotOf id).index + count := by
  have hlength : (p.block (p.slotOf id).blockId).length =
      (p.block (p.slotOf id).blockId).periodIds.length := rfl
  rw [tail?, hlength]
  split <;> simp <;> omega

/-- **The periods from a period on are those at the slots from its slot on.** -/
theorem map_some_of_tail? {id : PeriodId} {count : Nat} {ids : List PeriodId}
    (h : p.tail? id count = some ids) : ids.map some =
      (List.range count).map fun i => p.periodAt? ((p.slotOf id).later i) := by
  rw [tail?] at h
  split at h
  · next hle =>
    cases h
    refine List.ext_getElem (by simp; omega) fun i hi _ => ?_
    have hi : i < count := by
      simp only [List.length_map, List.length_take] at hi
      omega
    simp only [List.getElem_map, List.getElem_take, List.getElem_drop, List.getElem_range,
      p.periodAt?_eq, Slot.blockId_later, Slot.index_later]
    exact (List.getElem?_eq_getElem (by omega)).symm
  · cases h

/-! ## Sections and groups -/

theorem mem_sectionsOfCourse {s : Section} (hs : s ∈ p.sections) {course : CourseId} :
    s.id ∈ p.sectionsOfCourse course ↔ s.courseId = course := by
  rw [sectionsOfCourse_eq, List.mem_map]
  constructor
  · rintro ⟨s', hs', hid⟩
    obtain ⟨hmem, hcourse⟩ := List.mem_filter.1 hs'
    have hsame : s' = s := List.inj_on_of_nodup_map (p.nodup_ids (f := Section.id) rfl) hmem hs hid
    exact hsame ▸ of_decide_eq_true hcourse
  · intro hcourse
    exact ⟨s, List.mem_filter.2 ⟨hs, decide_eq_true hcourse⟩, rfl⟩

/-- The sections of a course stand in the order of the program. -/
theorem sublist_sectionsOfCourse (course : CourseId) :
    (p.sectionsOfCourse course).Sublist (p.sections.map (·.id)) := by
  rw [sectionsOfCourse_eq]
  exact List.filter_sublist.map _

/-- **A section is listed for a teacher as often as the teacher is listed for its course.** -/
theorem count_sectionsOfTeacher {s : Section} (hs : s ∈ p.sections) (teacher : TeacherId) :
    ∃ c ∈ p.courses, c.id = s.courseId ∧
      (p.sectionsOfTeacher teacher).count s.id = c.teacherIds.count teacher := by
  obtain ⟨c, hc, hid⟩ := List.mem_map.1 (lists_courseId hs)
  have hcourse : c.id = s.courseId := Id.ext hid
  refine ⟨c, hc, hcourse, ?_⟩
  rw [sectionsOfTeacher_eq]
  refine (count_flatMap_replicate (p.nodup_ids (f := Section.id) rfl) hs).trans ?_
  rw [← hcourse, p.course_eq hc]

/-- **A group is listed for a teacher as often as it lists the teacher.** -/
theorem count_groupsOf {g : TeacherGroup} (hg : g ∈ p.groups) (teacher : TeacherId) :
    (p.groupsOf teacher).count g.id = g.teacherIds.count teacher := by
  rw [groupsOf_eq]
  exact count_flatMap_replicate (p.nodup_ids (f := TeacherGroup.id) rfl) hg

/-! ## The answers of a program -/

/-- What is asked from one side is answered as from the other. -/
structure HasExactIndexes (p : Program) : Prop where
  /-- Periods and slots correspond to each other one to one. -/
  bijOn_slotOf : Set.BijOn p.slotOf p.periodIds p.slots
  /-- The way back from a slot to its period. -/
  periodAt?_eq_some_iff : ∀ slot id,
    p.periodAt? slot = some id ↔ id ∈ p.periodIds ∧ p.slotOf id = slot
  tail?_eq_none_iff : ∀ id ∈ p.periodIds, ∀ count, p.tail? id count = none ↔
    (p.block (p.slotOf id).blockId).length < (p.slotOf id).index + count
  map_some_of_tail? : ∀ id ∈ p.periodIds, ∀ count ids, p.tail? id count = some ids →
    ids.map some = (List.range count).map fun i => p.periodAt? ((p.slotOf id).later i)
  mem_sectionsOfCourse : ∀ course, ∀ s ∈ p.sections,
    s.id ∈ p.sectionsOfCourse course ↔ s.courseId = course
  /-- Every section of a course is listed once. -/
  nodup_sectionsOfCourse : ∀ course, (p.sectionsOfCourse course).Nodup
  /-- The sections of a course stand in the order of the program. -/
  sublist_sectionsOfCourse : ∀ course,
    (p.sectionsOfCourse course).Sublist (p.sections.map (·.id))
  sectionsOfTeacher_subset : ∀ teacher, p.sectionsOfTeacher teacher ⊆ p.sections.map (·.id)
  /-- A section is listed for a teacher as often as the teacher is listed for its course. -/
  count_sectionsOfTeacher : ∀ teacher, ∀ s ∈ p.sections, ∃ c ∈ p.courses, c.id = s.courseId ∧
    (p.sectionsOfTeacher teacher).count s.id = c.teacherIds.count teacher
  groupsOf_subset : ∀ teacher, p.groupsOf teacher ⊆ p.groups.map (·.id)
  /-- A group is listed for a teacher as often as it lists the teacher. -/
  count_groupsOf : ∀ teacher, ∀ g ∈ p.groups,
    (p.groupsOf teacher).count g.id = g.teacherIds.count teacher

/-- **The timeline and the directories of a program are exact.** -/
theorem indexes_exact (p : Program) : p.HasExactIndexes where
  bijOn_slotOf := p.bijOn_slotOf
  periodAt?_eq_some_iff _ _ := p.periodAt?_eq_some_iff
  tail?_eq_none_iff _ _ _ := p.tail?_eq_none_iff
  map_some_of_tail? _ _ _ _ := p.map_some_of_tail?
  mem_sectionsOfCourse _ _ hs := p.mem_sectionsOfCourse hs
  nodup_sectionsOfCourse course :=
    (p.nodup_ids (f := Section.id) rfl).sublist (p.sublist_sectionsOfCourse course)
  sublist_sectionsOfCourse := p.sublist_sectionsOfCourse
  sectionsOfTeacher_subset teacher := by
    rw [sectionsOfTeacher_eq]
    exact flatMap_replicate_subset
  count_sectionsOfTeacher teacher _ hs := p.count_sectionsOfTeacher hs teacher
  groupsOf_subset teacher := by
    rw [groupsOf_eq]
    exact flatMap_replicate_subset
  count_groupsOf teacher _ hg := p.count_groupsOf hg teacher

end Program

/-! ## A fair of two days -/

namespace Fair

/-- A day of three periods and one of a single period; a course lists its teacher twice, and so does
a group. -/
def record : ProgramRecord where
  teachers := [{ id := ⟨1⟩ }, { id := ⟨2⟩ }]
  rooms := [{ id := ⟨1⟩, capacity := 10 }]
  courses := [
    { id := ⟨1⟩, estimatedSize := 5, maxSize := 5, teacherIds := [⟨1⟩, ⟨2⟩, ⟨1⟩] },
    { id := ⟨2⟩, estimatedSize := 5, maxSize := 5, teacherIds := [⟨2⟩] }]
  sections := [
    { id := ⟨7⟩, courseId := ⟨1⟩, length := 2 },
    { id := ⟨5⟩, courseId := ⟨2⟩, length := 1 },
    { id := ⟨6⟩, courseId := ⟨1⟩, length := 1 }]
  blocks := [
    { id := ⟨2⟩, periods := [{ id := ⟨4⟩ }, { id := ⟨1⟩ }, { id := ⟨3⟩ }] },
    { id := ⟨1⟩, periods := [{ id := ⟨2⟩ }] }]
  groups := [{ id := ⟨1⟩, teacherIds := [⟨1⟩, ⟨1⟩], cap := 1 }]

def program : Program := ⟨record, by rfl⟩

end Fair

open Fair in
theorem indexes_exact_fair : program.tail? ⟨1⟩ 2 = some [⟨1⟩, ⟨3⟩] ∧
    [⟨1⟩, ⟨3⟩].map some =
      [program.periodAt? ⟨⟨2⟩, 1⟩, program.periodAt? ⟨⟨2⟩, 2⟩] ∧
    program.sectionsOfTeacher ⟨1⟩ = [⟨7⟩, ⟨7⟩, ⟨6⟩, ⟨6⟩] ∧
    (∃ c ∈ program.courses, c.id = ⟨1⟩ ∧
      (program.sectionsOfTeacher ⟨1⟩).count ⟨7⟩ = c.teacherIds.count ⟨1⟩) ∧
    (program.groupsOf ⟨1⟩).count ⟨1⟩ = 2 := by
  have hexact := Program.indexes_exact program
  have htail : program.tail? ⟨1⟩ 2 = some [⟨1⟩, ⟨3⟩] := by decide
  have hperiod : ⟨1⟩ ∈ program.periodIds :=
    List.mem_map.1 (show ⟨1⟩ ∈ program.periods.map (·.id) by decide)
  have hgroup := hexact.count_groupsOf ⟨1⟩ _ (List.mem_singleton_self _)
  exact ⟨htail, hexact.map_some_of_tail? ⟨1⟩ hperiod 2 _ htail, by decide,
    hexact.count_sectionsOfTeacher ⟨1⟩ ⟨⟨7⟩, ⟨1⟩, 2⟩ List.mem_cons_self, hgroup⟩

end Timetable

import Mathlib.Data.List.Nodup
import Timetable.Program.Basic
import Timetable.Proofs.Integrity

/-!
# What acceptance guarantees

A `Program` carries the proof that its description has no defects, and so is well-formed
(`Program.wellFormed`).  This file draws from it what the theory of schedules rests on.

* Identifiers are unique within their kind (`Program.nodup_idsOf`), so an entity is found by its
  identifier: `Program.section?_eq_some_iff` and its like.
* Every section runs for at least one period (`Program.length_pos`).
* The period at the slot of a period is that period (`Program.periodAt?_slot`), and there is one at
  every slot within a block (`Program.exists_periodAt?`).
* The lists of the sections of a teacher and of the groups of a teacher say what they should
  (`Program.mem_sectionsOfTeacher`, `Program.mem_groupsOf`).
-/

set_option autoImplicit false

namespace Timetable

namespace Program

variable (p : Program)

/-- **The description of a program is well-formed.** -/
theorem wellFormed : p.record.WellFormed := ProgramRecord.check_eq_ok_iff_wellFormed.1 p.accepted

/-! ## Unique identifiers -/

/-- **No two entities of a kind share an identifier.** -/
theorem nodup_idsOf (k : Kind) : (p.record.idsOf k).Nodup := p.wellFormed.nodup_idsOf k

theorem nodup_ids {α : Type} {k : Kind} {l : List α} {f : α → Id k}
    (h : p.record.idsOf k = l.map fun x => (f x).val) : (l.map f).Nodup :=
  ProgramRecord.nodup_ids (p.nodup_idsOf k) h

theorem section?_eq_some_iff {id : SectionId} {s : Section} :
    p.section? id = some s ↔ s ∈ p.sections ∧ s.id = id :=
  find?_key_eq_some_iff (p.nodup_ids (f := Section.id) rfl)

theorem sectionOf_eq {s : Section} (hs : s ∈ p.sections) : p.sectionOf s.id = s := by
  rw [sectionOf, p.section?_eq_some_iff.2 ⟨hs, rfl⟩, Option.getD_some]

theorem room?_eq_some_iff {id : RoomId} {r : Room} :
    p.room? id = some r ↔ r ∈ p.rooms ∧ r.id = id :=
  find?_key_eq_some_iff (p.nodup_ids (f := Room.id) rfl)

theorem room_eq {r : Room} (hr : r ∈ p.rooms) : p.room r.id = r := by
  rw [room, p.room?_eq_some_iff.2 ⟨hr, rfl⟩, Option.getD_some]

theorem course?_eq_some_iff {id : CourseId} {c : Course} :
    p.course? id = some c ↔ c ∈ p.courses ∧ c.id = id :=
  find?_key_eq_some_iff (p.nodup_ids (f := Course.id) rfl)

theorem course_eq {c : Course} (hc : c ∈ p.courses) : p.course c.id = c := by
  rw [course, p.course?_eq_some_iff.2 ⟨hc, rfl⟩, Option.getD_some]

theorem group?_eq_some_iff {id : GroupId} {g : TeacherGroup} :
    p.group? id = some g ↔ g ∈ p.groups ∧ g.id = id :=
  find?_key_eq_some_iff (p.nodup_ids (f := TeacherGroup.id) rfl)

theorem group_eq {g : TeacherGroup} (hg : g ∈ p.groups) : p.group g.id = g := by
  rw [group, p.group?_eq_some_iff.2 ⟨hg, rfl⟩, Option.getD_some]

theorem block?_eq_some_iff {id : BlockId} {b : Block} :
    p.block? id = some b ↔ b ∈ p.blocks ∧ b.id = id := by
  refine find?_key_eq_some_iff (p.nodup_ids (f := Block.id) ?_)
  simp [ProgramRecord.idsOf, blocks, BlockRecord.block]

theorem resource?_eq_some_iff {id : ResourceId} {r : Resource} :
    p.resource? id = some r ↔ r ∈ p.resources ∧ r.id = id :=
  find?_key_eq_some_iff (p.nodup_ids (f := Resource.id) rfl)

theorem resource_eq {r : Resource} (hr : r ∈ p.resources) : p.resource r.id = r := by
  rw [resource, p.resource?_eq_some_iff.2 ⟨hr, rfl⟩, Option.getD_some]

theorem map_id_placedPeriods (b : BlockRecord) :
    b.placedPeriods.map (·.id) = b.periods.map (·.id) := by
  rw [BlockRecord.placedPeriods, List.map_map]
  change b.periods.zipIdx.map (PeriodRecord.id ∘ Prod.fst) = _
  rw [← List.map_map, List.zipIdx_map_fst]

theorem map_id_periods : p.periods.map (·.id) = p.record.periodRecords.map (·.id) := by
  simp only [periods, ProgramRecord.periodRecords, List.map_flatMap, map_id_placedPeriods]

theorem period?_eq_some_iff {id : PeriodId} {q : Period} :
    p.period? id = some q ↔ q ∈ p.periods ∧ q.id = id := by
  refine find?_key_eq_some_iff (p.nodup_ids (f := Period.id) ?_)
  change p.record.periodRecords.map (Id.val ∘ PeriodRecord.id) = p.periods.map (Id.val ∘ Period.id)
  rw [← List.map_map, ← List.map_map, p.map_id_periods]

/-! ## Sections and groups of a teacher -/

/-- Every section runs for at least one period. -/
theorem length_pos {s : Section} (hs : s ∈ p.sections) : 0 < s.length :=
  p.wellFormed.length_pos s hs

/-- The sections of a course are found by going through all sections. -/
theorem sectionsOfCourse_eq (id : CourseId) :
    p.sectionsOfCourse id = (p.sections.filter (·.courseId = id)).map (·.id) := by
  rw [sectionsOfCourse, sectionsByCourse, Directory.under_ofItems]
  induction p.sections with
  | nil => rfl
  | cons s rest ih =>
    rw [List.flatMap_cons, ih, List.filter_cons, List.count_singleton]
    by_cases h : s.courseId = id <;> simp [h]

/-- The sections of a teacher are found by going through all sections. -/
theorem sectionsOfTeacher_eq (id : TeacherId) : p.sectionsOfTeacher id =
    p.sections.flatMap fun s => List.replicate ((p.course s.courseId).teacherIds.count id) s.id :=
  Directory.under_ofItems _ _ _ _

/-- The groups of a teacher are found by going through all groups. -/
theorem groupsOf_eq (id : TeacherId) :
    p.groupsOf id = p.groups.flatMap fun g => List.replicate (g.teacherIds.count id) g.id :=
  Directory.under_ofItems _ _ _ _

/-- A section of a course that it asks for would have to come before itself. -/
theorem not_mem_sectionsOfCourse {id : SectionId} {course : CourseId}
    (h : course ∈ (p.courseOf id).prerequisiteIds) : id ∉ p.sectionsOfCourse course := by
  intro hid
  rw [sectionsOfCourse_eq] at hid
  obtain ⟨s, hs, rfl⟩ := List.mem_map.1 hid
  obtain ⟨hs, hcourse⟩ := List.mem_filter.1 hs
  rw [courseOf, p.sectionOf_eq hs, of_decide_eq_true hcourse, Program.course] at h
  cases hc : p.course? course with
  | none =>
    rw [hc] at h
    exact List.not_mem_nil h
  | some c =>
    rw [hc] at h
    have hid : c.id = course := by simpa using List.find?_some hc
    exact p.wellFormed.acyclic course (.single ⟨c, List.mem_of_find?_eq_some hc, hid, h⟩)

/-- A section is listed for the teachers of its course. -/
theorem mem_sectionsOfTeacher {id : SectionId} {s : Section} (hs : p.section? id = some s)
    {t : TeacherId} : id ∈ p.sectionsOfTeacher t ↔ t ∈ p.teachersOf id := by
  have hmem := p.section?_eq_some_iff.1 hs
  have hcourse : p.courseOf id = p.course s.courseId := by rw [courseOf, sectionOf, hs]; rfl
  rw [sectionsOfTeacher_eq, teachersOf, hcourse, List.mem_flatMap]
  constructor
  · rintro ⟨s', hs', hid⟩
    obtain ⟨hcount, rfl⟩ := List.mem_replicate.1 hid
    have hss : s' = s := Option.some.inj ((p.section?_eq_some_iff.2 ⟨hs', rfl⟩).symm.trans hs)
    rw [← hss]
    exact List.count_pos_iff.1 (Nat.pos_of_ne_zero hcount)
  · intro ht
    refine ⟨s, hmem.1, List.mem_replicate.2 ⟨?_, hmem.2.symm⟩⟩
    exact Nat.pos_iff_ne_zero.1 (List.count_pos_iff.2 ht)

theorem shareTeacher_comm (a b : SectionId) : p.shareTeacher a b ↔ p.shareTeacher b a := by
  simp only [shareTeacher, List.any_eq_true, List.contains_iff_mem]
  exact exists_congr fun t => and_comm

/-- A group is listed for its teachers. -/
theorem mem_groupsOf {t : TeacherId} {id : GroupId} :
    id ∈ p.groupsOf t ↔ ∃ g ∈ p.groups, g.id = id ∧ t ∈ g.teacherIds := by
  rw [groupsOf_eq, List.mem_flatMap]
  refine exists_congr fun g => and_congr_right fun _ => ?_
  rw [List.mem_replicate, ← Nat.pos_iff_ne_zero, List.count_pos_iff, eq_comm, and_comm]

/-! ## The timeline -/

/-- The period at a slot is the one listed there for the block. -/
theorem periodAt?_eq (slot : Slot) :
    p.periodAt? slot = (p.block slot.blockId).periodIds[slot.index]? := by
  rw [periodAt?, block]
  cases p.block? slot.blockId with
  | none => rfl
  | some b => rfl

theorem slot_of_mem_placedPeriods {b : BlockRecord} {q : Period} (hq : q ∈ b.placedPeriods) :
    q.blockId = b.id ∧ b.block.periodIds[q.index]? = some q.id := by
  obtain ⟨⟨r, i⟩, hr, rfl⟩ := List.mem_map.1 hq
  refine ⟨rfl, ?_⟩
  rw [BlockRecord.block, List.getElem?_map, List.mk_mem_zipIdx_iff_getElem?.1 hr]
  rfl

/-- **The period at the slot of a period is that period.** -/
theorem periodAt?_slot {q : Period} (hq : q ∈ p.periods) : p.periodAt? q.slot = some q.id := by
  obtain ⟨b, hb, hqb⟩ := List.mem_flatMap.1 hq
  obtain ⟨hid, hget⟩ := slot_of_mem_placedPeriods hqb
  have hblock : p.block? q.slot.blockId = some b.block :=
    p.block?_eq_some_iff.2 ⟨List.mem_map_of_mem hb, hid.symm⟩
  rw [periodAt?, hblock]
  exact hget

theorem exists_mem_placedPeriods {b : BlockRecord} {i : Nat} {id : PeriodId}
    (h : b.block.periodIds[i]? = some id) :
    ∃ q ∈ b.placedPeriods, q.id = id ∧ q.slot = ⟨b.id, i⟩ := by
  rw [BlockRecord.block, List.getElem?_map] at h
  obtain ⟨r, hr, rfl⟩ := Option.map_eq_some_iff.1 h
  exact ⟨_, List.mem_map_of_mem (List.mk_mem_zipIdx_iff_getElem?.2 hr), rfl, rfl⟩

/-- **What is found at a slot is a period of the program at that slot.** -/
theorem exists_period_of_periodAt? {slot : Slot} {id : PeriodId} (h : p.periodAt? slot = some id) :
    ∃ q, p.period? id = some q ∧ q.slot = slot := by
  obtain ⟨block, hblock, hid⟩ := Option.bind_eq_some_iff.1 h
  obtain ⟨hmem, hblockId⟩ := p.block?_eq_some_iff.1 hblock
  obtain ⟨b, hb, rfl⟩ := List.mem_map.1 hmem
  obtain ⟨q, hq, hqid, hslot⟩ := exists_mem_placedPeriods hid
  refine ⟨q, p.period?_eq_some_iff.2 ⟨List.mem_flatMap.2 ⟨b, hb, hq⟩, hqid⟩, ?_⟩
  rw [hslot, show b.id = slot.blockId from hblockId]

/-- The periods listed for a block are periods of the program in that block. -/
theorem exists_period_of_mem_periodIds {block : BlockId} {id : PeriodId}
    (h : id ∈ (p.block block).periodIds) : ∃ q, p.period? id = some q ∧ q.blockId = block := by
  obtain ⟨i, hi⟩ := List.mem_iff_getElem?.1 h
  obtain ⟨q, hq, hslot⟩ := p.exists_period_of_periodAt? ((p.periodAt?_eq ⟨block, i⟩).trans hi)
  exact ⟨q, hq, congrArg Slot.blockId hslot⟩

/-- The lunch periods of a block lie in that block. -/
theorem blockId_of_mem_lunchPeriods {block : BlockId} {q : Period} (h : q ∈ p.lunchPeriods block) :
    q.blockId = block := by
  obtain ⟨id, hid, rfl⟩ := List.mem_map.1 (List.mem_filter.1 h).1
  obtain ⟨q, hq, hblock⟩ := p.exists_period_of_mem_periodIds hid
  rwa [period, hq, Option.getD_some]

/-- There is a period at every slot within a block. -/
theorem exists_periodAt? {slot : Slot} (h : slot.index < (p.block slot.blockId).length) :
    ∃ q, p.periodAt? slot = some q :=
  ⟨_, (p.periodAt?_eq slot).trans (List.getElem?_eq_getElem h)⟩

end Program

end Timetable

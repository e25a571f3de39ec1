import Mathlib.Data.List.Nodup
import Timetable.Program.Integrity
import Timetable.Proofs.Circle
import Timetable.Proofs.Outline

/-!
# Which descriptions are accepted

`ProgramRecord.WellFormed` says in plain terms what a description has to be like, and
`ProgramRecord.Violation` says what may be wrong with it, and where.  A place in a description is a
list of numbers, like that of a paragraph in a book: first the check, in the order in which the
checks are documented, then the positions of the entity, of the list it keeps the reference in and
of the reference.  The order of places is the order of the checks.

* `check_eq_ok_iff_wellFormed`: the descriptions that are accepted are the well-formed ones.
* `check_eq_error_iff`: any other description is refused for the violation at the first place.

`ProgramRecord.violations` connects the two sides.  It lists the violations in the order of their
places, and up to the last check, which names one course only, it is the list of defects that the
check works out.
-/

set_option autoImplicit false

namespace Timetable

open Relation

/-! ## Keys and places in a list -/

/-- If no two entries share a key, looking for a key finds the entry that has it. -/
theorem find?_key_eq_some_iff {α β : Type} [DecidableEq β] {f : α → β} {l : List α}
    (h : (l.map f).Nodup) {key : β} {a : α} :
    l.find? (fun x => f x = key) = some a ↔ a ∈ l ∧ f a = key := by
  constructor
  · intro hf
    exact ⟨List.mem_of_find?_eq_some hf, by simpa using List.find?_some hf⟩
  · rintro ⟨ha, rfl⟩
    cases hf : l.find? (fun x => f x = f a) with
    | none => exact absurd (List.find?_eq_none.1 hf a ha) (by simp)
    | some b =>
      have hb : f b = f a := by simpa using List.find?_some hf
      rw [List.inj_on_of_nodup_map h (List.mem_of_find?_eq_some hf) ha hb]

/-- Nothing occurs twice if nothing also occurs before its place. -/
theorem nodup_iff_not_mem_take {α : Type} {l : List α} :
    l.Nodup ↔ ∀ i a, l[i]? = some a → a ∉ l.take i := by
  rw [List.nodup_iff_getElem?_ne_getElem?]
  constructor
  · intro h i a hi ha
    obtain ⟨j, hj, hja⟩ := List.mem_take_iff_getElem.1 ha
    obtain ⟨hlt, -⟩ := List.getElem?_eq_some_iff.1 hi
    exact h j i (by omega) hlt (by rw [hi, List.getElem?_eq_some_iff]; exact ⟨_, hja⟩)
  · intro h i j hij hj heq
    refine h j l[j] (List.getElem?_eq_getElem hj) (List.mem_take_iff_getElem.2 ⟨i, by omega, ?_⟩)
    rw [List.getElem?_eq_getElem hj, List.getElem?_eq_getElem (Nat.lt_trans hij hj)] at heq
    exact Option.some.inj heq

theorem getElem?_toList_eq_some_iff {α : Type} {o : Option α} {j : Nat} {a : α} :
    o.toList[j]? = some a ↔ j = 0 ∧ o = some a := by
  cases o with
  | none => simp
  | some x => cases j <;> simp

namespace ProgramRecord

variable {r : ProgramRecord}

/-! ## Well-formed descriptions -/

/-- The description has an entity with an identifier. -/
def Lists (r : ProgramRecord) {k : Kind} (id : Id k) : Prop := id.val ∈ r.idsOf k

/-- One course has another one among its prerequisites. -/
def Requires (r : ProgramRecord) (c d : CourseId) : Prop :=
  ∃ course ∈ r.courses, course.id = c ∧ d ∈ course.prerequisiteIds

/-- An entity names another one, at some place of the description. -/
inductive Refers (r : ProgramRecord) :
    (place : List Nat) → {source target : Kind} → Id source → Id target → Prop
  | teacherPeriod {i j : Nat} {t : Teacher} {q : PeriodId} :
    r.teachers[i]? = some t → t.periodIds[j]? = some q → Refers r [3, 0, i, j] t.id q
  | roomPeriod {i j : Nat} {x : Room} {q : PeriodId} :
    r.rooms[i]? = some x → x.periodIds[j]? = some q → Refers r [3, 1, i, 0, j] x.id q
  | roomProperty {i j : Nat} {x : Room} {q : PropertyId} :
    r.rooms[i]? = some x → x.propertyIds[j]? = some q → Refers r [3, 1, i, 1, j] x.id q
  | roomResource {i j : Nat} {x : Room} {q : ResourceId} :
    r.rooms[i]? = some x → x.resourceIds[j]? = some q → Refers r [3, 1, i, 2, j] x.id q
  | roomBuilding {i : Nat} {x : Room} {b : BuildingId} :
    r.rooms[i]? = some x → x.buildingId = some b → Refers r [3, 1, i, 3, 0] x.id b
  | courseTeacher {i j : Nat} {c : Course} {t : TeacherId} :
    r.courses[i]? = some c → c.teacherIds[j]? = some t → Refers r [4, i, 0, j] c.id t
  | courseProperty {i j : Nat} {c : Course} {q : PropertyId} :
    r.courses[i]? = some c → c.propertyIds[j]? = some q → Refers r [4, i, 1, j] c.id q
  | courseResource {i j : Nat} {c : Course} {q : ResourceId} :
    r.courses[i]? = some c → c.resourceIds[j]? = some q → Refers r [4, i, 2, j] c.id q
  | coursePrerequisite {i j : Nat} {c : Course} {d : CourseId} :
    r.courses[i]? = some c → c.prerequisiteIds[j]? = some d → Refers r [4, i, 3, j] c.id d
  | coursePreferredRoom {i j : Nat} {c : Course} {x : RoomId} :
    r.courses[i]? = some c → c.preferredRoomIds[j]? = some x → Refers r [4, i, 4, j] c.id x
  | sectionCourse {i : Nat} {s : Section} :
    r.sections[i]? = some s → Refers r [5, i, 0, 0] s.id s.courseId
  | groupTeacher {i j : Nat} {g : TeacherGroup} {t : TeacherId} :
    r.groups[i]? = some g → g.teacherIds[j]? = some t → Refers r [6, i, j] g.id t

/-- What a description has to be like. -/
structure WellFormed (r : ProgramRecord) : Prop where
  /-- No two entities of a kind share an identifier. -/
  nodup_idsOf : ∀ kind, (r.idsOf kind).Nodup
  periods_ne_nil : ∀ b ∈ r.blocks, b.periods ≠ []
  /-- Every entity that is named exists. -/
  lists_of_refers : ∀ {place : List Nat} {source target : Kind} {a : Id source} {b : Id target},
    r.Refers place a b → r.Lists b
  estimatedSize_le : ∀ c ∈ r.courses, c.estimatedSize ≤ c.maxSize
  length_pos : ∀ s ∈ r.sections, 0 < s.length
  /-- No course asks for itself, however indirectly. -/
  acyclic : ∀ c, ¬ TransGen r.Requires c c

/-- Something is wrong at a place of a description. -/
inductive Violation (r : ProgramRecord) : (place : List Nat) → Defect → Prop
  | duplicateId {k i n : Nat} {kind : Kind} : Kind.all[k]? = some kind →
    (r.idsOf kind)[i]? = some n → n ∈ (r.idsOf kind).take i →
    Violation r [1, k, i] (.duplicateId kind n)
  | emptyBlock {i : Nat} {b : BlockRecord} : r.blocks[i]? = some b → b.periods = [] →
    Violation r [2, i] (.emptyBlock b.id)
  | danglingReference {place : List Nat} {source target : Kind} {a : Id source} {b : Id target} :
    r.Refers place a b → ¬ r.Lists b →
    Violation r place (.danglingReference source a.val target b.val)
  | estimateAboveMaximum {i : Nat} {c : Course} : r.courses[i]? = some c →
    c.maxSize < c.estimatedSize →
    Violation r [4, i, 5] (.estimateAboveMaximum c.id c.estimatedSize c.maxSize)
  | emptySection {i : Nat} {s : Section} : r.sections[i]? = some s → s.length = 0 →
    Violation r [5, i, 1] (.emptySection s.id)
  | circularPrerequisites {i : Nat} {c : Course} : r.courses[i]? = some c →
    LeadsToCircle r.Requires c.id → Violation r [7, i] (.circularPrerequisites c.id)

/-! ## The list of violations -/

/-- The identifiers of a kind that also occur before their place. -/
def repetitions (r : ProgramRecord) (kind : Kind) : List (List Nat × Defect) :=
  outline 0 ((r.idsOf kind).zipIdx.map fun e =>
    findingIf (e.1 ∈ (r.idsOf kind).take e.2) (.duplicateId kind e.1))

/-- The references of one entity to a kind that lead nowhere. -/
def unlisted (r : ProgramRecord) {source target : Kind} (a : Id source)
    (references : List (Id target)) : List (List Nat × Defect) :=
  outline 0 (references.map fun b =>
    findingIf (b.val ∉ r.idsOf target) (.danglingReference source a.val target b.val))

/-- What is wrong with a block, and where in it. -/
def blockViolations (b : BlockRecord) : List (List Nat × Defect) :=
  findingIf (b.periods = []) (.emptyBlock b.id)

/-- What is wrong with a room, and where in it. -/
def roomViolations (r : ProgramRecord) (x : Room) : List (List Nat × Defect) := outline 0 [
  r.unlisted x.id x.periodIds,
  r.unlisted x.id x.propertyIds,
  r.unlisted x.id x.resourceIds,
  r.unlisted x.id x.buildingId.toList]

/-- What is wrong with a course by itself, and where in it. -/
def courseViolations (r : ProgramRecord) (c : Course) : List (List Nat × Defect) := outline 0 [
  r.unlisted c.id c.teacherIds,
  r.unlisted c.id c.propertyIds,
  r.unlisted c.id c.resourceIds,
  r.unlisted c.id c.prerequisiteIds,
  r.unlisted c.id c.preferredRoomIds,
  findingIf (c.maxSize < c.estimatedSize)
    (.estimateAboveMaximum c.id c.estimatedSize c.maxSize)]

/-- What is wrong with a section, and where in it. -/
def sectionViolations (r : ProgramRecord) (s : Section) : List (List Nat × Defect) := outline 0 [
  r.unlisted s.id [s.courseId],
  findingIf (s.length = 0) (.emptySection s.id)]

/-- What each of the checks before the last one looks for. -/
def localViolations (r : ProgramRecord) : List (List (List Nat × Defect)) := [
  outline 0 (Kind.all.map r.repetitions),
  outline 0 (r.blocks.map blockViolations),
  outline 0 [
    outline 0 (r.teachers.map fun t => r.unlisted t.id t.periodIds),
    outline 0 (r.rooms.map r.roomViolations)],
  outline 0 (r.courses.map r.courseViolations),
  outline 0 (r.sections.map r.sectionViolations),
  outline 0 (r.groups.map fun g => r.unlisted g.id g.teacherIds)]

open Classical in
/-- All violations in the order of their places. -/
noncomputable def violations (r : ProgramRecord) : List (List Nat × Defect) :=
  outline 1 (r.localViolations ++ [
    outline 0 (r.courses.map fun c =>
      findingIf (LeadsToCircle r.Requires c.id) (.circularPrerequisites c.id))])

theorem forall_mem_unlisted {source target : Kind} {a : Id source} {references : List (Id target)}
    {P : List Nat × Defect → Prop} : (∀ e ∈ r.unlisted a references, P e) ↔
      ∀ j b, references[j]? = some b → ¬ r.Lists b →
        P ([j], .danglingReference source a.val target b.val) := by
  simp only [unlisted, forall_mem_outline_map, forall_mem_findingIf, Lists]

theorem mem_unlisted {source target : Kind} {a : Id source} {references : List (Id target)}
    {j : Nat} {b : Id target} (hj : references[j]? = some b) (hb : ¬ r.Lists b) :
    ([j], .danglingReference source a.val target b.val) ∈ r.unlisted a references :=
  mem_outline_map hj (mem_findingIf hb)

theorem mem_repetitions {kind : Kind} {i n : Nat} (hi : (r.idsOf kind)[i]? = some n)
    (hn : n ∈ (r.idsOf kind).take i) : ([i], .duplicateId kind n) ∈ r.repetitions kind := by
  refine mem_outline_map (x := (n, i)) ?_ (mem_findingIf hn)
  rw [List.getElem?_zipIdx, hi, Nat.zero_add]
  rfl

theorem forall_mem_repetitions {kind : Kind} {P : List Nat × Defect → Prop} :
    (∀ e ∈ r.repetitions kind, P e) ↔ ∀ i n, (r.idsOf kind)[i]? = some n →
      n ∈ (r.idsOf kind).take i → P ([i], .duplicateId kind n) := by
  simp only [repetitions, forall_mem_outline_map, forall_mem_findingIf, List.getElem?_zipIdx,
    Option.map_eq_some_iff, Nat.zero_add]
  refine forall_congr' fun i => ⟨fun h n hn => h _ ⟨n, hn, rfl⟩, ?_⟩
  rintro h _ ⟨n, hn, rfl⟩
  exact h n hn

/-- What the list names is a violation. -/
theorem violation_of_mem : ∀ e ∈ r.violations, r.Violation e.1 e.2 := by
  simp only [violations, localViolations, List.cons_append, List.nil_append, blockViolations,
    roomViolations, courseViolations, sectionViolations, forall_mem_outline_cons,
    forall_mem_outline_nil, forall_mem_outline_map, forall_mem_repetitions, forall_mem_unlisted,
    forall_mem_findingIf, and_true]
  refine ⟨?_, ?_, ⟨?_, ?_⟩, ?_, ?_, ?_, ?_⟩
  · exact fun k kind hk i n hi hn => .duplicateId hk hi hn
  · exact fun i b hi hb => .emptyBlock hi hb
  · exact fun i t hi j q hj hq => .danglingReference (.teacherPeriod hi hj) hq
  · exact fun i x hi => ⟨
      fun j q hj hq => .danglingReference (.roomPeriod hi hj) hq,
      fun j q hj hq => .danglingReference (.roomProperty hi hj) hq,
      fun j q hj hq => .danglingReference (.roomResource hi hj) hq,
      fun j b hj hb => by
        obtain ⟨rfl, hx⟩ := getElem?_toList_eq_some_iff.1 hj
        exact .danglingReference (.roomBuilding hi hx) hb⟩
  · exact fun i c hi => ⟨
      fun j t hj ht => .danglingReference (.courseTeacher hi hj) ht,
      fun j q hj hq => .danglingReference (.courseProperty hi hj) hq,
      fun j q hj hq => .danglingReference (.courseResource hi hj) hq,
      fun j d hj hd => .danglingReference (.coursePrerequisite hi hj) hd,
      fun j x hj hx => .danglingReference (.coursePreferredRoom hi hj) hx,
      fun hc => .estimateAboveMaximum hi hc⟩
  · refine fun i s hi => ⟨?_, fun hs => .emptySection hi hs⟩
    rintro (_ | j) b hj hb
    · cases hj
      exact .danglingReference (.sectionCourse hi) hb
    · simp at hj
  · exact fun i g hi j t hj ht => .danglingReference (.groupTeacher hi hj) ht
  · exact fun i c hi hc => .circularPrerequisites hi hc

/-- A reference that leads nowhere is named at its place. -/
theorem mem_violations_of_refers {place : List Nat} {source target : Kind} {a : Id source}
    {b : Id target} (h : r.Refers place a b) (hb : ¬ r.Lists b) :
    (place, .danglingReference source a.val target b.val) ∈ r.violations := by
  cases h with
  | teacherPeriod hi hj =>
    exact mem_outline 2 rfl (mem_outline 0 rfl (mem_outline_map hi (mem_unlisted hj hb)))
  | roomPeriod hi hj =>
    exact mem_outline 2 rfl (mem_outline 1 rfl (mem_outline_map hi
      (mem_outline 0 rfl (mem_unlisted hj hb))))
  | roomProperty hi hj =>
    exact mem_outline 2 rfl (mem_outline 1 rfl (mem_outline_map hi
      (mem_outline 1 rfl (mem_unlisted hj hb))))
  | roomResource hi hj =>
    exact mem_outline 2 rfl (mem_outline 1 rfl (mem_outline_map hi
      (mem_outline 2 rfl (mem_unlisted hj hb))))
  | roomBuilding hi hx =>
    exact mem_outline 2 rfl (mem_outline 1 rfl (mem_outline_map hi
      (mem_outline 3 rfl (mem_unlisted (getElem?_toList_eq_some_iff.2 ⟨rfl, hx⟩) hb))))
  | courseTeacher hi hj =>
    exact mem_outline 3 rfl (mem_outline_map hi (mem_outline 0 rfl (mem_unlisted hj hb)))
  | courseProperty hi hj =>
    exact mem_outline 3 rfl (mem_outline_map hi (mem_outline 1 rfl (mem_unlisted hj hb)))
  | courseResource hi hj =>
    exact mem_outline 3 rfl (mem_outline_map hi (mem_outline 2 rfl (mem_unlisted hj hb)))
  | coursePrerequisite hi hj =>
    exact mem_outline 3 rfl (mem_outline_map hi (mem_outline 3 rfl (mem_unlisted hj hb)))
  | coursePreferredRoom hi hj =>
    exact mem_outline 3 rfl (mem_outline_map hi (mem_outline 4 rfl (mem_unlisted hj hb)))
  | sectionCourse hi =>
    exact mem_outline 4 rfl (mem_outline_map hi (mem_outline 0 rfl (mem_unlisted rfl hb)))
  | groupTeacher hi hj => exact mem_outline 5 rfl (mem_outline_map hi (mem_unlisted hj hb))

/-- **The list names all violations.** -/
theorem mem_violations {place : List Nat} {d : Defect} :
    (place, d) ∈ r.violations ↔ r.Violation place d := by
  refine ⟨fun h => violation_of_mem _ h, fun h => ?_⟩
  cases h with
  | duplicateId hk hi hn =>
    exact mem_outline 0 rfl (mem_outline_map hk (mem_repetitions hi hn))
  | emptyBlock hi hb => exact mem_outline 1 rfl (mem_outline_map hi (mem_findingIf hb))
  | danglingReference hab hb => exact mem_violations_of_refers hab hb
  | estimateAboveMaximum hi hc =>
    exact mem_outline 3 rfl (mem_outline_map hi (mem_outline 5 rfl (mem_findingIf hc)))
  | emptySection hi hs =>
    exact mem_outline 4 rfl (mem_outline_map hi (mem_outline 1 rfl (mem_findingIf hs)))
  | circularPrerequisites hi hc => exact mem_outline 6 rfl (mem_outline_map hi (mem_findingIf hc))

theorem inOrder_unlisted {source target : Kind} {a : Id source} {references : List (Id target)} :
    InOrder (r.unlisted a references) :=
  inOrder_outline.2 (List.forall_mem_map.2 fun _ _ => inOrder_findingIf)

theorem inOrder_repetitions {kind : Kind} : InOrder (r.repetitions kind) :=
  inOrder_outline.2 (List.forall_mem_map.2 fun _ _ => inOrder_findingIf)

theorem inOrder_violations : InOrder r.violations := by
  simp only [violations, localViolations, List.cons_append, List.nil_append, blockViolations,
    roomViolations, courseViolations, sectionViolations, inOrder_outline,
    inOrder_repetitions, inOrder_unlisted, inOrder_findingIf, List.forall_mem_cons,
    List.forall_mem_map, List.not_mem_nil, false_implies, implies_true, and_true]

/-! ## The list of defects -/

/-- A number is repeated where it is in the part of the list before its place. -/
theorem repeated_eq_flatMap {earlier before ns : List Nat}
    (h : ∀ n, n ∈ earlier ↔ n ∈ before) :
    repeated earlier ns = (ns.zipIdx before.length).flatMap fun e =>
      if e.1 ∈ (before ++ ns).take e.2 then [e.1] else [] := by
  induction ns generalizing earlier before with
  | nil => rfl
  | cons n ns ih =>
    rw [repeated, List.zipIdx_cons, List.flatMap_cons, List.take_left]
    have hlength : before.length + 1 = (before ++ [n]).length := by simp
    have happend : before ++ n :: ns = (before ++ [n]) ++ ns := by simp
    by_cases hn : n ∈ earlier
    · rw [if_pos hn, if_pos ((h n).1 hn), hlength, happend, ← ih, List.singleton_append]
      intro m
      rw [List.mem_append, ← h, List.mem_singleton, or_iff_left_of_imp]
      exact fun hm => hm ▸ hn
    · rw [if_neg hn, if_neg (mt (h n).2 hn), hlength, happend, ← ih, List.nil_append]
      intro m
      rw [List.mem_append, ← h, List.mem_singleton, List.mem_cons, or_comm]

theorem map_snd_repetitions (kind : Kind) :
    (r.repetitions kind).map (·.2) = r.duplicates kind := by
  have h : repeated [] (r.idsOf kind) = _ := repeated_eq_flatMap fun n => (Iff.refl (n ∈ []))
  rw [duplicates, h, List.map_flatMap, repetitions, map_snd_outline, List.flatMap_map]
  refine List.flatMap_congr fun e _ => ?_
  rw [map_snd_findingIf, List.nil_append]
  split <;> rfl

theorem map_snd_unlisted {source target : Kind} (a : Id source) (references : List (Id target)) :
    (r.unlisted a references).map (·.2) = r.dangling a references := by
  rw [unlisted, map_snd_outline, List.flatMap_map, dangling]
  induction references with
  | nil => rfl
  | cons b references ih =>
    rw [List.flatMap_cons, ih, map_snd_findingIf, List.filter_cons]
    by_cases hb : b.val ∈ r.idsOf target <;> simp [hb]

theorem map_snd_blockViolations (b : BlockRecord) :
    (blockViolations b).map (·.2) = blockDefects b := by
  simp only [blockViolations, map_snd_findingIf, blockDefects, List.isEmpty_iff]

theorem map_snd_roomViolations (x : Room) : (r.roomViolations x).map (·.2) = r.roomDefects x := by
  simp only [roomViolations, map_snd_outline, map_snd_unlisted, roomDefects, List.flatMap_cons,
    List.flatMap_nil, List.append_nil, List.append_assoc]

theorem map_snd_courseViolations (c : Course) :
    (r.courseViolations c).map (·.2) = r.courseDefects c := by
  simp only [courseViolations, map_snd_outline, map_snd_unlisted, map_snd_findingIf, courseDefects,
    gt_iff_lt, List.flatMap_cons, List.flatMap_nil, List.append_nil, List.append_assoc]

theorem map_snd_sectionViolations (s : Section) :
    (r.sectionViolations s).map (·.2) = r.sectionDefects s := by
  simp only [sectionViolations, map_snd_outline, map_snd_unlisted, map_snd_findingIf,
    sectionDefects, List.flatMap_cons, List.flatMap_nil, List.append_nil]

/-- Before the last check, the defects are the violations. -/
theorem defects_eq : r.defects = r.localViolations.flatMap (·.map (·.2)) ++
    (firstCircular? r.courses).toList.map .circularPrerequisites := by
  simp only [localViolations, List.flatMap_cons, List.flatMap_nil, map_snd_outline,
    List.flatMap_map, map_snd_repetitions, map_snd_blockViolations, map_snd_roomViolations,
    map_snd_courseViolations, map_snd_sectionViolations, map_snd_unlisted, List.append_nil,
    defects, List.append_assoc]
  rfl

theorem nodup_ids {α : Type} {kind : Kind} {l : List α} {f : α → Id kind}
    (hkind : (r.idsOf kind).Nodup) (h : r.idsOf kind = l.map fun x => (f x).val) :
    (l.map f).Nodup := by
  rw [h, show (fun x => (f x).val) = Id.val ∘ f from rfl, ← List.map_map] at hkind
  exact hkind.of_map _

/-- Identifiers being unique, the list of the prerequisites of a course is the course's. -/
theorem asks_prerequisitesIn (h : (r.courses.map (·.id)).Nodup) :
    Asks (prerequisitesIn r.courses) = r.Requires := by
  funext c d
  refine propext ⟨fun hd => ?_, ?_⟩
  · obtain ⟨course, hcourse, rfl⟩ :=
      List.mem_map.1 (prerequisitesIn_ne_nil (List.ne_nil_of_mem hd))
    rw [Asks, prerequisitesIn, (find?_key_eq_some_iff h).2 ⟨hcourse, rfl⟩] at hd
    exact ⟨course, hcourse, rfl, hd⟩
  · rintro ⟨course, hcourse, rfl, hd⟩
    rw [Asks, prerequisitesIn, (find?_key_eq_some_iff h).2 ⟨hcourse, rfl⟩]
    exact hd

/-- If nothing is wrong before the last check, courses have different identifiers. -/
theorem nodup_courseIds (h : ∀ l ∈ r.localViolations, l = []) : (r.courses.map (·.id)).Nodup := by
  suffices hcourse : (r.idsOf .course).Nodup from nodup_ids hcourse rfl
  refine nodup_iff_not_mem_take.2 fun i n hi hn => ?_
  have hmem : (3 :: [i], .duplicateId .course n) ∈ outline 0 (Kind.all.map r.repetitions) :=
    mem_outline_map rfl (mem_repetitions hi hn)
  rw [h _ List.mem_cons_self] at hmem
  exact List.not_mem_nil hmem

theorem head?_flatMap_findingIf {α β : Type} {p : α → Prop} [DecidablePred p] {f : α → β}
    {l : List α} : (l.flatMap fun a => (findingIf (p a) (f a)).map (·.2)).head? =
      (l.find? fun a => p a).map f := by
  induction l with
  | nil => rfl
  | cons a l ih =>
    rw [List.flatMap_cons, List.head?_append, ih, map_snd_findingIf, List.find?_cons]
    by_cases ha : p a <;> simp [ha]

/-- **The first defect is the first violation.** -/
theorem head?_defects : r.defects.head? = (r.violations.map (·.2)).head? := by
  classical
  rw [defects_eq, violations, map_snd_outline, List.flatMap_append, List.head?_append,
    List.head?_append]
  cases hlocal : (r.localViolations.flatMap (·.map (·.2))).head? with
  | some d => rfl
  | none =>
    rw [List.head?_eq_none_iff, List.flatMap_eq_nil_iff] at hlocal
    have hnodup := nodup_courseIds fun l hl => List.map_eq_nil_iff.1 (hlocal l hl)
    rw [firstCircular?_eq_find?, asks_prerequisitesIn hnodup, List.flatMap_singleton,
      map_snd_outline, List.flatMap_map, head?_flatMap_findingIf, List.find?_map, Option.none_or,
      Option.none_or, Function.comp_def]
    cases r.courses.find? (fun c => decide (LeadsToCircle r.Requires c.id)) <;> rfl

/-! ## What acceptance means -/

/-- A description is well-formed if there is nothing wrong with it. -/
theorem wellFormed_iff : r.WellFormed ↔ ∀ place d, ¬ r.Violation place d := by
  constructor
  · intro h place d hd
    cases hd with
    | duplicateId hk hi hn => exact nodup_iff_not_mem_take.1 (h.nodup_idsOf _) _ _ hi hn
    | emptyBlock hi hb => exact h.periods_ne_nil _ (List.mem_of_getElem? hi) hb
    | danglingReference hab hb => exact hb (h.lists_of_refers hab)
    | estimateAboveMaximum hi hc =>
      exact Nat.not_lt.2 (h.estimatedSize_le _ (List.mem_of_getElem? hi)) hc
    | emptySection hi hs => exact Nat.ne_of_gt (h.length_pos _ (List.mem_of_getElem? hi)) hs
    | circularPrerequisites hi hc =>
      obtain ⟨d, -, hd⟩ := hc
      exact h.acyclic d hd
  · intro h
    refine ⟨fun kind => ?_, fun b hb hnil => ?_, fun {_ _ _ _ _} hab => ?_, fun c hc => ?_,
      fun s hs => ?_, fun c hc => ?_⟩
    · obtain ⟨k, hk⟩ := List.mem_iff_getElem?.1 (show kind ∈ Kind.all by cases kind <;> decide)
      exact nodup_iff_not_mem_take.2 fun i n hi hn => h _ _ (.duplicateId hk hi hn)
    · obtain ⟨i, hi⟩ := List.mem_iff_getElem?.1 hb
      exact h _ _ (.emptyBlock hi hnil)
    · exact Classical.byContradiction fun hb => h _ _ (.danglingReference hab hb)
    · obtain ⟨i, hi⟩ := List.mem_iff_getElem?.1 hc
      exact Nat.not_lt.1 fun hlt => h _ _ (.estimateAboveMaximum hi hlt)
    · obtain ⟨i, hi⟩ := List.mem_iff_getElem?.1 hs
      exact Nat.pos_of_ne_zero fun h0 => h _ _ (.emptySection hi h0)
    · obtain ⟨d, ⟨course, hcourse, rfl, -⟩, -⟩ := TransGen.head'_iff.1 hc
      obtain ⟨i, hi⟩ := List.mem_iff_getElem?.1 hcourse
      exact h _ _ (.circularPrerequisites hi ⟨_, .refl, hc⟩)

/-- **The descriptions that are accepted are the well-formed ones.** -/
theorem check_eq_ok_iff_wellFormed : r.check = .ok () ↔ r.WellFormed := by
  rw [check_eq_ok_iff, wellFormed_iff, ← List.head?_eq_none_iff, head?_defects,
    List.head?_eq_none_iff, List.map_eq_nil_iff, List.eq_nil_iff_forall_not_mem]
  exact ⟨fun h _ _ hd => h _ (mem_violations.2 hd), fun h e he => h _ _ (violation_of_mem e he)⟩

theorem check_eq_error_iff_head? {d : Defect} : r.check = .error d ↔ r.defects.head? = some d := by
  rw [check]
  cases r.defects <;> simp

/-- **Any other description is refused for its first violation.** -/
theorem check_eq_error_iff {d : Defect} : r.check = .error d ↔
    ∃ place, r.Violation place d ∧ ∀ place' d', r.Violation place' d' → ¬ place' < place := by
  rw [check_eq_error_iff_head?, head?_defects, head?_map_snd_eq_some_iff inOrder_violations]
  refine exists_congr fun place => and_congr mem_violations ?_
  exact ⟨fun h _ _ hd => h _ (mem_violations.2 hd), fun h e he => h _ _ (violation_of_mem e he)⟩

/-- **The check accepts the well-formed descriptions and names the first violation in the others.**
-/
theorem check_accepts_exactly (r : ProgramRecord) :
    (r.check = .ok () ↔ r.WellFormed) ∧
      ∀ d, r.check = .error d ↔ ∃ place, r.Violation place d ∧
        ∀ place' d', r.Violation place' d' → ¬ place' < place :=
  ⟨check_eq_ok_iff_wellFormed, fun _ => check_eq_error_iff⟩

end ProgramRecord

end Timetable

import Timetable.Proofs.Outcome
import Timetable.Proofs.Placement

/-!
# Strict evaluation: programs and starts

A look-up of an identifier that is taken for granted gives something blank if there is nothing to be
found, a difference of natural numbers stops at zero, and so nothing ever goes wrong in a way that
would be seen.  *Strict* evaluation is meant for seeing it: it ends in a `Panic` as soon as an entity
is absent, an index is out of range or a difference would be negative.

For everything that looks something up, and has a name such as `p.courseOf`, there is a strict form
`p.courseOf!`, which takes what it needs from strict forms only.  A lemma such as `courseOf!_eq` says
when the two agree, that is when the strict form succeeds.  For questions about a program it is
enough that the program lists the identifiers asked about (`ProgramRecord.Lists`), because whatever
is named in an accepted description is listed.
-/

set_option autoImplicit false

namespace Timetable

/-- Why a strict evaluation is given up. -/
inductive Panic
  /-- An entity that is taken for granted is not part of the program. -/
  | absent (kind : Kind) (id : Nat) (program : String)
  /-- A list does not reach as far as an index. -/
  | outOfRange (index length : Nat)
  /-- More is to be taken away than there is. -/
  | negative (minuend subtrahend : Nat)
  /-- The computation itself is given up. -/
  | fault (f : Fault)
  deriving DecidableEq, Repr

/-- The difference of two numbers, which must not be negative. -/
def subtract! (a b : Nat) : Except Panic Nat :=
  if b ≤ a then .ok (a - b) else .error (.negative a b)

theorem subtract!_eq {a b : Nat} (h : b ≤ a) : subtract! a b = .ok (a - b) := if_pos h

example : subtract! 2 3 = .error (.negative 2 3) := rfl

/-- The member of a list at an index, which must not be out of range. -/
def nth! {α : Type} (l : List α) (i : Nat) : Except Panic α :=
  match l[i]? with
  | some x => .ok x
  | none => .error (.outOfRange i l.length)

theorem nth!_eq {α : Type} {l : List α} {i : Nat} {x : α} (h : l[i]? = some x) :
    nth! l i = .ok x := by
  rw [nth!, h]

namespace Program

variable (p : Program)

/-! ## Entities -/

/-- The entity that a look-up is sure to find. -/
def demand! {α : Type} {kind : Kind} (find? : Id kind → Option α) (id : Id kind) :
    Except Panic α :=
  match find? id with
  | some a => .ok a
  | none => .error (.absent kind id.val p.name)

def teacher! (id : TeacherId) : Except Panic Teacher := p.demand! p.teacher? id
def room! (id : RoomId) : Except Panic Room := p.demand! p.room? id
def course! (id : CourseId) : Except Panic Course := p.demand! p.course? id
def sectionOf! (id : SectionId) : Except Panic Section := p.demand! p.section? id
def block! (id : BlockId) : Except Panic Block := p.demand! p.block? id
def period! (id : PeriodId) : Except Panic Period := p.demand! p.period? id
def resource! (id : ResourceId) : Except Panic Resource := p.demand! p.resource? id
def group! (id : GroupId) : Except Panic TeacherGroup := p.demand! p.group? id

variable {p}

/-- **An identifier that is listed leads to an entity.** -/
theorem demand!_eq {α : Type} [Inhabited α] {kind : Kind} {l : List α} {f : α → Id kind}
    (hids : p.record.idsOf kind = l.map fun x => (f x).val) {id : Id kind} (h : p.record.Lists id) :
    p.demand! (fun id => l.find? fun x => f x = id) id =
        .ok ((l.find? fun x => f x = id).getD default) ∧
      (l.find? fun x => f x = id).getD default ∈ l := by
  cases hfind : l.find? fun x => f x = id with
  | none =>
    obtain ⟨x, hx, hid⟩ := List.mem_map.1 (hids ▸ h : id.val ∈ l.map fun x => (f x).val)
    exact absurd (Id.ext hid) (by simpa using List.find?_eq_none.1 hfind x hx)
  | some x =>
    refine ⟨?_, List.mem_of_find?_eq_some hfind⟩
    rw [demand!, hfind]
    rfl

theorem teacher!_eq {id : TeacherId} (h : p.record.Lists id) :
    p.teacher! id = .ok (p.teacher id) := (demand!_eq (f := Teacher.id) rfl h).1

theorem room!_eq {id : RoomId} (h : p.record.Lists id) :
    p.room! id = .ok (p.room id) ∧ p.room id ∈ p.rooms := demand!_eq (f := Room.id) rfl h

theorem course!_eq {id : CourseId} (h : p.record.Lists id) :
    p.course! id = .ok (p.course id) ∧ p.course id ∈ p.courses := demand!_eq (f := Course.id) rfl h

theorem sectionOf!_eq {id : SectionId} (h : p.record.Lists id) :
    p.sectionOf! id = .ok (p.sectionOf id) ∧ p.sectionOf id ∈ p.sections :=
  demand!_eq (f := Section.id) rfl h

theorem resource!_eq {id : ResourceId} (h : p.record.Lists id) :
    p.resource! id = .ok (p.resource id) := (demand!_eq (f := Resource.id) rfl h).1

theorem group!_eq {id : GroupId} (h : p.record.Lists id) :
    p.group! id = .ok (p.group id) := (demand!_eq (f := TeacherGroup.id) rfl h).1

theorem idsOf_block : p.record.idsOf .block = p.blocks.map fun b => b.id.val := by
  rw [blocks, List.map_map]
  rfl

theorem idsOf_period : p.record.idsOf .period = p.periods.map fun q => q.id.val := by
  have h := congrArg (List.map Id.val) p.map_id_periods
  rw [List.map_map, List.map_map] at h
  exact h.symm

theorem block!_eq {id : BlockId} (h : p.record.Lists id) :
    p.block! id = .ok (p.block id) := (demand!_eq (f := Block.id) idsOf_block h).1

theorem period!_eq {id : PeriodId} (h : p.record.Lists id) :
    p.period! id = .ok (p.period id) := (demand!_eq (f := Period.id) idsOf_period h).1

/-! ## What is listed -/

theorem lists_courseId {s : Section} (hs : s ∈ p.sections) : p.record.Lists s.courseId := by
  obtain ⟨i, hi⟩ := List.mem_iff_getElem?.1 hs
  exact p.wellFormed.lists_of_refers (.sectionCourse hi)

theorem lists_teacherId {c : Course} (hc : c ∈ p.courses) {t : TeacherId} (ht : t ∈ c.teacherIds) :
    p.record.Lists t := by
  obtain ⟨i, hi⟩ := List.mem_iff_getElem?.1 hc
  obtain ⟨j, hj⟩ := List.mem_iff_getElem?.1 ht
  exact p.wellFormed.lists_of_refers (.courseTeacher hi hj)

theorem lists_resourceId {c : Course} (hc : c ∈ p.courses) {q : ResourceId}
    (hq : q ∈ c.resourceIds) : p.record.Lists q := by
  obtain ⟨i, hi⟩ := List.mem_iff_getElem?.1 hc
  obtain ⟨j, hj⟩ := List.mem_iff_getElem?.1 hq
  exact p.wellFormed.lists_of_refers (.courseResource hi hj)

theorem lists_prerequisiteId {c : Course} (hc : c ∈ p.courses) {d : CourseId}
    (hd : d ∈ c.prerequisiteIds) : p.record.Lists d := by
  obtain ⟨i, hi⟩ := List.mem_iff_getElem?.1 hc
  obtain ⟨j, hj⟩ := List.mem_iff_getElem?.1 hd
  exact p.wellFormed.lists_of_refers (.coursePrerequisite hi hj)

theorem lists_roomPeriodId {r : Room} (hr : r ∈ p.rooms) {q : PeriodId} (hq : q ∈ r.periodIds) :
    p.record.Lists q := by
  obtain ⟨i, hi⟩ := List.mem_iff_getElem?.1 hr
  obtain ⟨j, hj⟩ := List.mem_iff_getElem?.1 hq
  exact p.wellFormed.lists_of_refers (.roomPeriod hi hj)

theorem lists_sectionId {s : Section} (hs : s ∈ p.sections) : p.record.Lists s.id :=
  List.mem_map_of_mem hs

theorem lists_roomId {r : Room} (hr : r ∈ p.rooms) : p.record.Lists r.id := List.mem_map_of_mem hr

theorem lists_periodId {q : Period} (hq : q ∈ p.periods) : p.record.Lists q.id := by
  rw [ProgramRecord.Lists, idsOf_period]
  exact List.mem_map_of_mem hq

theorem lists_blockId {q : Period} (hq : q ∈ p.periods) : p.record.Lists q.blockId := by
  obtain ⟨b, hb, hq⟩ := List.mem_flatMap.1 hq
  rw [(slot_of_mem_placedPeriods hq).1]
  exact List.mem_map_of_mem hb

theorem lists_of_mem_periodIds {block : BlockId} {id : PeriodId}
    (h : id ∈ (p.block block).periodIds) : p.record.Lists id := by
  obtain ⟨q, hq, -⟩ := p.exists_period_of_mem_periodIds h
  obtain ⟨hmem, rfl⟩ := p.period?_eq_some_iff.1 hq
  exact lists_periodId hmem

theorem lists_of_mem_groupsOf {t : TeacherId} {id : GroupId} (h : id ∈ p.groupsOf t) :
    p.record.Lists id := by
  obtain ⟨g, hg, rfl, -⟩ := p.mem_groupsOf.1 h
  exact List.mem_map_of_mem hg

/-! ## What belongs together -/

variable (p)

/-- The course of a section. -/
def courseOf! (id : SectionId) : Except Panic Course := do
  p.course! (← p.sectionOf! id).courseId

/-- The teachers of a section. -/
def teachersOf! (id : SectionId) : Except Panic (List TeacherId) := do
  return (← p.courseOf! id).teacherIds

/-- Whether two sections have a teacher in common. -/
def shareTeacher! (a b : SectionId) : Except Panic Bool := do
  let theirs ← p.teachersOf! b
  return (← p.teachersOf! a).any fun t => theirs.contains t

/-- The properties of a room that reserve it. -/
def bindingProperties! (id : RoomId) : Except Panic (List PropertyId) := do
  return (← p.room! id).propertyIds.filter fun q => ((p.property? q).map (·.binding)).getD false

/-- The resources of a room that reserve it. -/
def bindingResources! (id : RoomId) : Except Panic (List ResourceId) := do
  return (← p.room! id).resourceIds.filter fun r => ((p.resource? r).map (·.binding)).getD false

/-- The slot of a period. -/
def slotOf! (id : PeriodId) : Except Panic Slot := do
  return (← p.period! id).slot

/-- The lunch periods of a block in the order of time. -/
def lunchPeriods! (id : BlockId) : Except Panic (List Period) := do
  let periods ← (← p.block! id).periodIds.mapM p.period!
  return periods.filter (·.isLunch)

/-- The periods in which a room may be used, in the order of their numbers. -/
def roomPeriods! (id : RoomId) : Except Panic (List PeriodId) := do
  return distinct (← p.room! id).periodIds

/-- The periods in which all teachers of a section can teach, in the order of their numbers. -/
def compatiblePeriods! (id : SectionId) : Except Panic (List PeriodId) := do
  let available ← (← p.teachersOf! id).mapM fun t => do return (← p.teacher! t).periodIds
  return (distinct (p.periods.map (·.id))).filter fun q => available.all fun ids => ids.contains q

/-- Whether a room can host a section at all. -/
def isCompatible! (id : SectionId) (roomId : RoomId) : Except Panic Bool := do
  let course ← p.courseOf! id
  let room ← p.room! roomId
  let binding ← p.bindingProperties! roomId
  return decide (course.estimatedSize ≤ room.capacity) &&
    course.propertyIds.all (room.propertyIds.contains ·) &&
    binding.all (course.propertyIds.contains ·)

/-- The rooms that can host a section, in the order of the program. -/
def compatibleRooms! (id : SectionId) : Except Panic (List RoomId) :=
  (p.rooms.map (·.id)).filterM (p.isCompatible! id)

variable {p}

theorem courseOf!_eq {id : SectionId} (h : p.record.Lists id) :
    p.courseOf! id = .ok (p.courseOf id) ∧ p.courseOf id ∈ p.courses := by
  obtain ⟨hsection, hmem⟩ := sectionOf!_eq h
  rw [courseOf!, hsection]
  exact course!_eq (lists_courseId hmem)

theorem teachersOf!_eq {id : SectionId} (h : p.record.Lists id) :
    p.teachersOf! id = .ok (p.teachersOf id) := by
  rw [teachersOf!, (courseOf!_eq h).1]
  rfl

theorem shareTeacher!_eq {a b : SectionId} (ha : p.record.Lists a) (hb : p.record.Lists b) :
    p.shareTeacher! a b = .ok (p.shareTeacher a b) := by
  rw [shareTeacher!, teachersOf!_eq ha, teachersOf!_eq hb]
  rfl

theorem bindingProperties!_eq {id : RoomId} (h : p.record.Lists id) :
    p.bindingProperties! id = .ok (p.bindingProperties id) := by
  rw [bindingProperties!, (room!_eq h).1]
  rfl

theorem bindingResources!_eq {id : RoomId} (h : p.record.Lists id) :
    p.bindingResources! id = .ok (p.bindingResources id) := by
  rw [bindingResources!, (room!_eq h).1]
  rfl

theorem slotOf!_eq {id : PeriodId} (h : p.record.Lists id) :
    p.slotOf! id = .ok (p.slotOf id) := by
  rw [slotOf!, period!_eq h]
  rfl

theorem lunchPeriods!_eq {id : BlockId} (h : p.record.Lists id) :
    p.lunchPeriods! id = .ok (p.lunchPeriods id) := by
  rw [lunchPeriods!, block!_eq h, ok_bind,
    mapM_eq_ok fun q hq => period!_eq (lists_of_mem_periodIds hq)]
  rfl

theorem roomPeriods!_eq {id : RoomId} (h : p.record.Lists id) :
    p.roomPeriods! id = .ok (p.roomPeriods id) := by
  rw [roomPeriods!, (room!_eq h).1]
  rfl

theorem compatiblePeriods!_eq {id : SectionId} (h : p.record.Lists id) :
    p.compatiblePeriods! id = .ok (p.compatiblePeriods id) := by
  have hcourse := (courseOf!_eq h).2
  rw [compatiblePeriods!, teachersOf!_eq h, ok_bind,
    mapM_eq_ok (g := fun t => (p.teacher t).periodIds) fun t ht => ?_, ok_bind, compatiblePeriods]
  · simp only [List.all_map]
    rfl
  · rw [teacher!_eq (lists_teacherId hcourse ht)]
    rfl

theorem isCompatible!_eq {id : SectionId} {roomId : RoomId} (h : p.record.Lists id)
    (hr : p.record.Lists roomId) : p.isCompatible! id roomId = .ok (p.isCompatible id roomId) := by
  rw [isCompatible!, (courseOf!_eq h).1, (room!_eq hr).1, bindingProperties!_eq hr]
  rfl

theorem compatibleRooms!_eq {id : SectionId} (h : p.record.Lists id) :
    p.compatibleRooms! id = .ok (p.compatibleRooms id) := by
  refine filterM_eq_ok fun r hr => ?_
  obtain ⟨room, hroom, rfl⟩ := List.mem_map.1 hr
  exact isCompatible!_eq h (lists_roomId hroom)

end Program

/-! ## Starts -/

namespace Start

variable {p : Program} {c : Start}

/-- Makes a start. -/
def make! (p : Program) (periodId : PeriodId) (roomId : RoomId) (sectionId : SectionId) :
    Except Panic (Except PlacementError Start) :=
  match p.period? periodId, p.room? roomId, p.section? sectionId with
  | none, _, _ => .ok (.error (.unknown .period periodId.val))
  | some _, none, _ => .ok (.error (.unknown .room roomId.val))
  | some _, some _, none => .ok (.error (.unknown .courseSection sectionId.val))
  | some period, some _, some held => do
    let block ← p.block! period.blockId
    match addWithin 32 period.index held.length with
    | .error f => return .error (.fault f)
    | .ok stop =>
      if stop > lowBits 32 block.length then return .error (.doesNotFit sectionId periodId)
      else return .ok { slot := period.slot, roomId, sectionId, periodId, length := held.length }

/-- The start of a section in a room at a period, if there is one. -/
def attempt! (p : Program) (periodId : PeriodId) (roomId : RoomId) (sectionId : SectionId) :
    Except Panic (Option Start) := do
  (PlacementError.toOption (← make! p periodId roomId sectionId)).mapError .fault

/-- The slot of the last period. -/
def lastSlot! (c : Start) : Except Panic Slot := do
  return c.slot.later (← subtract! c.length 1)

/-- What is going on at a slot, if the section is in session then. -/
def presentAt! (p : Program) (c : Start) (slot : Slot) : Except Panic (Option Present) :=
  if c.covers slot then do
    let offset ← subtract! slot.index c.slot.index
    return (p.periodAt? slot).map fun q => ⟨c, offset, q⟩
  else return none

/-- The periods of the run in the order of time. -/
def presents! (p : Program) (c : Start) : Except Panic (List Present) := do
  let block ← p.block! c.slot.blockId
  (List.range c.length).mapM fun offset => do
    return ⟨c, offset, ← nth! block.periodIds (c.slot.index + offset)⟩

/-- **Making a start looks up nothing that might be absent.** -/
theorem make!_eq (p : Program) (q : PeriodId) (r : RoomId) (id : SectionId) :
    make! p q r id = .ok (make p q r id) := by
  rw [make!, make]
  cases hq : p.period? q with
  | none => rfl
  | some period =>
    cases p.room? r with
    | none => rfl
    | some room =>
      cases p.section? id with
      | none => rfl
      | some held =>
        simp only [Program.block!_eq (Program.lists_blockId (p.period?_eq_some_iff.1 hq).1), ok_bind]
        cases addWithin 32 period.index held.length with
        | error f => rfl
        | ok stop => exact (apply_ite Except.ok _ _ _).symm

theorem attempt!_eq (p : Program) (q : PeriodId) (r : RoomId) (id : SectionId) :
    attempt! p q r id = (PlacementError.toOption (make p q r id)).mapError .fault := by
  rw [attempt!, make!_eq]
  rfl

/-- What is found in session began at the slot or before. -/
theorem presentAt!_eq (p : Program) (c : Start) (slot : Slot) :
    c.presentAt! p slot = .ok (c.presentAt? p slot) := by
  rw [presentAt!, presentAt?]
  split
  · next hs =>
    rw [subtract!_eq (covers_iff.1 hs).2.1]
    rfl
  · rfl

namespace IsOf

/-- **A start of a program names what the program lists.** -/
theorem lists (h : c.IsOf p) : p.record.Lists c.sectionId ∧ p.record.Lists c.roomId ∧
    p.record.Lists c.periodId ∧ p.record.Lists c.slot.blockId := by
  obtain ⟨period, room, held, hq, hr, hs, -, -, hc⟩ := make_eq_ok_iff.1 h
  obtain ⟨hperiod, hperiodId⟩ := p.period?_eq_some_iff.1 hq
  obtain ⟨hheld, hheldId⟩ := p.section?_eq_some_iff.1 hs
  have hroomId : room.id = c.roomId := by simpa using List.find?_some hr
  refine ⟨hheldId ▸ Program.lists_sectionId hheld, ?_, hperiodId ▸ Program.lists_periodId hperiod, ?_⟩
  · exact hroomId ▸ Program.lists_roomId (List.mem_of_find?_eq_some hr)
  · rw [hc]
    exact Program.lists_blockId hperiod

theorem lastSlot!_eq (h : c.IsOf p) : c.lastSlot! = .ok c.lastSlot := by
  rw [lastSlot!, subtract!_eq h.length_pos]
  rfl

/-- **The run of a start lies within the periods of its block.** -/
theorem exists_periodAt? (h : c.IsOf p) {offset : Nat} (ho : offset < c.length) :
    ∃ q, p.periodAt? (c.slot.later offset) = some q := by
  have hstop := h.stop_le
  refine p.exists_periodAt? ?_
  rw [Slot.index_later, Slot.blockId_later]
  omega

theorem presents!_eq (h : c.IsOf p) : c.presents! p = .ok (c.presents p) := by
  obtain ⟨-, -, -, hblock⟩ := h.lists
  rw [presents!, Program.block!_eq hblock, ok_bind]
  refine mapM_eq_ok fun offset ho => ?_
  obtain ⟨q, hq⟩ := h.exists_periodAt? (List.mem_range.1 ho)
  have hget : (p.block c.slot.blockId).periodIds[c.slot.index + offset]? = some q :=
    (p.periodAt?_eq (c.slot.later offset)).symm.trans hq
  rw [nth!_eq hget, hq]
  rfl

/-- The periods of a run are listed. -/
theorem lists_periodId (h : c.IsOf p) {m : Present} (hm : m ∈ c.presents p) :
    p.record.Lists m.periodId := by
  obtain ⟨offset, ho, rfl⟩ := List.mem_map.1 hm
  obtain ⟨q, hq⟩ := h.exists_periodAt? (List.mem_range.1 ho)
  rw [hq]
  exact Program.lists_of_mem_periodIds (List.mem_of_getElem? ((p.periodAt?_eq _).symm.trans hq))

end IsOf

end Start

end Timetable

import Timetable.Proofs.Rule
import Timetable.Proofs.Strict.Program

/-!
# Strict evaluation: rules

A `StrictRule` answers like a `Rule`, but looks up everything strictly.  `RuleKind.strictRule` makes
one of every kind, and `RuleKind.agrees_strictRule` says that it succeeds, and gives the objections of
the rule, for every start of a program and every coherent schedule.

Coherence is needed because rules look up what is placed already: it says that these are starts of
the program, too.  Three differences occur in the rules, and neither is negative:

* A run has a last period, so one can be taken from its length (`Start.IsOf.lastSlot!_eq`).
* A lot names borrowers only if all units are in use, that is if one borrower more than there are is
  more than the units (`Rule.poolObjections!_eq`).
* The load from which the entries of a group are taken one after the other is that of the
  candidate and all of them (`Rule.shed!_eq`).
-/

set_option autoImplicit false

namespace Timetable

/-- A condition that is only looked at if another one holds. -/
theorem ite_ok_false {ε : Type} {c : Prop} [Decidable c] {b : Bool} :
    (if c then Except.ok b else Except.ok false : Except ε Bool) = .ok (decide c && b) := by
  by_cases hc : c
  · rw [if_pos hc, decide_eq_true hc, Bool.true_and]
  · rw [if_neg hc, decide_eq_false hc, Bool.false_and]

/-! ## What is in session -/

namespace Schedule

variable {p : Program} (s : Schedule p)

/-- The section that is in session in a room at a slot. -/
def occurringAt! (slot : Slot) (room : RoomId) : Except Panic (Option Present) :=
  match s.startingBefore? room slot with
  | none => return none
  | some a => a.presentAt! p slot

/-- Everything that is in session at a slot, in the order of the rooms. -/
def occurring! (slot : Slot) : Except Panic (List Present) :=
  s.rooms.keys.filterMapM fun room => s.occurringAt! slot room

theorem occurringAt!_eq (slot : Slot) (room : RoomId) :
    s.occurringAt! slot room = .ok (s.occurringAt? slot room) := by
  rw [occurringAt!, occurringAt?]
  cases s.startingBefore? room slot with
  | none => rfl
  | some a => exact a.presentAt!_eq p slot

theorem occurring!_eq (slot : Slot) : s.occurring! slot = .ok (s.occurring slot) :=
  filterMapM_eq_ok fun room _ => s.occurringAt!_eq slot room

variable {s}

/-- What is in session is listed. -/
theorem Coherent.lists_of_mem_occurring (h : s.Coherent) {slot : Slot} {o : Present}
    (ho : o ∈ s.occurring slot) : p.record.Lists o.sectionId ∧ p.record.Lists o.roomId := by
  obtain ⟨hsection, hroom, -⟩ := (h.isOf_of_holds (h.mem_occurring_iff.1 ho).1).lists
  exact ⟨hsection, hroom⟩

end Schedule

/-- The periods of a start of a program name what the program lists. -/
theorem Start.IsOf.lists_present {p : Program} {c : Start} (hc : c.IsOf p) {m : Present}
    (hm : m ∈ c.presents p) : p.record.Lists m.sectionId ∧ p.record.Lists m.roomId ∧
      p.record.Lists m.periodId := by
  rw [Rule.sectionId_of_mem_presents hm, Rule.roomId_of_mem_presents hm]
  exact ⟨hc.lists.1, hc.lists.2.1, hc.lists_periodId hm⟩

/-! ## Strict rules -/

/-- A rule that looks up strictly what it needs. -/
structure StrictRule where
  /-- The objections to the whole run. -/
  onStart : {p : Program} → Schedule p → Start → Except Panic (List Objection) := fun _ _ => .ok []
  /-- The objections to one period of the run. -/
  onPresent : {p : Program} → Schedule p → Present → Except Panic (List Objection) :=
    fun _ _ => .ok []

/-- The strict rule succeeds and gives the objections of the rule. -/
structure StrictRule.Agrees (strict : StrictRule) (r : Rule) : Prop where
  onStart : ∀ {p : Program} {s : Schedule p} {c : Start}, s.Coherent → c.IsOf p →
    strict.onStart s c = .ok (r.onStart s c)
  onPresent : ∀ {p : Program} {s : Schedule p} {c : Start} {m : Present}, s.Coherent → c.IsOf p →
    m ∈ c.presents p → strict.onPresent s m = .ok (r.onPresent s m)

namespace Rule

variable {p : Program} {s : Schedule p}

/-! ### Rules against double booking -/

/-- A section may be placed once. -/
def duplicateSections! : StrictRule where
  onStart s c :=
    return [.clash (s.startOf? c.sectionId).toList s!"{c.sectionId} is already scheduled"]

/-- A teacher teaches one section at a time. -/
def teacherConflict! : StrictRule where
  onPresent {p} s m := do
    let busy ← (← s.occurring! m.slot).filterM fun o =>
      if o.sectionId ≠ m.sectionId then p.shareTeacher! m.sectionId o.sectionId else return false
    return [.clash (busy.map (·.start)) s!"a teacher of {m.sectionId} is busy at {m.periodId}"]

/-- A room hosts one section at a time. -/
def roomConflict! : StrictRule where
  onPresent s m := do
    let occupant := (← s.occurringAt! m.slot m.roomId).toList.filter fun o =>
      o.sectionId ≠ m.sectionId
    return [.clash (occupant.map (·.start)) s!"{m.roomId} is occupied at {m.periodId}"]

theorem agrees_duplicateSections! : duplicateSections!.Agrees duplicateSections where
  onStart _ _ := rfl
  onPresent _ _ _ := rfl

theorem agrees_teacherConflict! : teacherConflict!.Agrees teacherConflict where
  onStart _ _ := rfl
  onPresent {p s c m} hs hc hm := by
    simp only [teacherConflict!, s.occurring!_eq, ok_bind]
    rw [filterM_eq_ok (g := fun o => o.sectionId ≠ m.sectionId &&
      p.shareTeacher m.sectionId o.sectionId) fun o ho => ?_]
    · rfl
    · rw [Program.shareTeacher!_eq (hc.lists_present hm).1 (hs.lists_of_mem_occurring ho).1]
      exact ite_ok_false

theorem agrees_roomConflict! : roomConflict!.Agrees roomConflict where
  onStart _ _ := rfl
  onPresent {p s c m} _ _ _ := by
    simp only [roomConflict!, s.occurringAt!_eq, ok_bind]
    rfl

/-! ### Rules of size and supply -/

/-- The room has the right size, and room and teachers are available. -/
def localConflict! (minimum maximum : Float) : StrictRule where
  onStart {p} _ c := do
    let course ← p.courseOf! c.sectionId
    let capacity := (← p.room! c.roomId).capacity
    let title := course.title
    let largest := course.maxSize
    let expected := course.estimatedSize
    return require (ratio capacity largest ≥ minimum)
        s!"{c.roomId} seats {capacity}, {title} takes up to {largest}" ++
      require (ratio capacity expected ≤ maximum)
        s!"{c.roomId} seats {capacity}, too large for {expected} expected in {title}"
  onPresent {p} _ m := do
    let teachable ← p.compatiblePeriods! m.sectionId
    let available ← p.roomPeriods! m.roomId
    return require (teachable.contains m.periodId)
        s!"a teacher of {m.sectionId} is unavailable at {m.periodId}" ++
      require (available.contains m.periodId) s!"{m.roomId} is unavailable at {m.periodId}"

/-- The room has every property the course requires and is reserved by none it does not require. -/
def roomProperties! : StrictRule where
  onStart {p} _ c := do
    let required := (← p.courseOf! c.sectionId).propertyIds
    let offered := (← p.room! c.roomId).propertyIds
    let missing := required.filter fun q => !offered.contains q
    let unwanted := (← p.bindingProperties! c.roomId).filter fun q => !required.contains q
    return (missing.map fun q => .flaw s!"{c.roomId} lacks {q}") ++
      (unwanted.map fun q => .flaw s!"{c.roomId} is reserved for courses requiring {q}")

theorem agrees_localConflict! (minimum maximum : Float) :
    (localConflict! minimum maximum).Agrees (localConflict minimum maximum) where
  onStart {p s c} _ hc := by
    simp only [localConflict!, (Program.courseOf!_eq hc.lists.1).1,
      (Program.room!_eq hc.lists.2.1).1, ok_bind]
    rfl
  onPresent {p s c m} _ hc hm := by
    obtain ⟨hsection, hroom, -⟩ := hc.lists_present hm
    simp only [localConflict!, Program.compatiblePeriods!_eq hsection,
      Program.roomPeriods!_eq hroom, ok_bind]
    rfl

theorem agrees_roomProperties! : roomProperties!.Agrees roomProperties where
  onStart {p s c} _ hc := by
    simp only [roomProperties!, (Program.courseOf!_eq hc.lists.1).1,
      (Program.room!_eq hc.lists.2.1).1, Program.bindingProperties!_eq hc.lists.2.1, ok_bind]
    rfl
  onPresent _ _ _ := rfl

/-! ### Equipment -/

/-- The resources a section needs and its room does not supply. -/
def borrowed! (p : Program) (id : SectionId) (room : RoomId) : Except Panic (List ResourceId) := do
  let supplied := (← p.room! room).resourceIds
  return (← p.courseOf! id).resourceIds.filter fun r => !supplied.contains r

/-- The sections in session that borrow a resource, other than the candidate's. -/
def borrowers! (s : Schedule p) (m : Present) (r : ResourceId) : Except Panic (List Start) := do
  let others ← (← s.occurring! m.slot).filterM fun o =>
    if o.sectionId ≠ m.sectionId then do return (← borrowed! p o.sectionId o.roomId).contains r
    else return false
  return others.map (·.start)

/-- What the pool of one resource has against a period of a run. -/
def poolObjections! (seed : UInt64) (s : Schedule p) (m : Present) (r : ResourceId) :
    Except Panic (List Objection) := do
  let others ← borrowers! s m r
  let units := (← p.resource! r).floating
  if others.length < units then return []
  else if units = 0 then return [.flaw s!"{m.roomId} lacks {r} and none float"]
  else do
    let excess ← subtract! (others.length + 1) units
    return [.clash ((drawLots (lot seed m r.val) others).take excess)
      s!"all {units} floating {r} are in use at {m.periodId}"]

/-- Required equipment is in the room or can be borrowed, and the room is not reserved for courses
that require other equipment. -/
def resources! (seed : UInt64) : StrictRule where
  onStart {p} _ c := do
    let required := (← p.courseOf! c.sectionId).resourceIds
    let unwanted := (← p.bindingResources! c.roomId).filter fun r => !required.contains r
    return unwanted.map fun r => .flaw s!"{c.roomId} is reserved for courses requiring {r}"
  onPresent {p} s m := do
    (← borrowed! p m.sectionId m.roomId).flatMapM (poolObjections! seed s m)

theorem borrowed!_eq {id : SectionId} {room : RoomId} (hid : p.record.Lists id)
    (hroom : p.record.Lists room) : borrowed! p id room = .ok (borrowed p id room) := by
  rw [borrowed!, (Program.room!_eq hroom).1, (Program.courseOf!_eq hid).1]
  rfl

theorem borrowers!_eq (hs : s.Coherent) (m : Present) (r : ResourceId) :
    borrowers! s m r = .ok (borrowers s m r) := by
  rw [borrowers!, s.occurring!_eq, ok_bind, filterM_eq_ok (g := fun o => o.sectionId ≠ m.sectionId &&
    (borrowed p o.sectionId o.roomId).contains r) fun o ho => ?_]
  · rfl
  · obtain ⟨hsection, hroom⟩ := hs.lists_of_mem_occurring ho
    rw [borrowed!_eq hsection hroom]
    exact ite_ok_false

/-- **More borrowers are taken than there are units, if one more is to have its own.** -/
theorem poolObjections!_eq (hs : s.Coherent) {seed : UInt64} {m : Present} {r : ResourceId}
    (hr : p.record.Lists r) : poolObjections! seed s m r = .ok (poolObjections seed s m r) := by
  simp only [poolObjections!, poolObjections, borrowers!_eq hs, Program.resource!_eq hr, ok_bind]
  split
  · rfl
  · next hfull =>
    split
    · rfl
    · rw [subtract!_eq (by omega)]
      rfl

theorem agrees_resources! (seed : UInt64) : (resources! seed).Agrees (resources seed) where
  onStart {p s c} _ hc := by
    simp only [resources!, (Program.courseOf!_eq hc.lists.1).1,
      Program.bindingResources!_eq hc.lists.2.1, ok_bind]
    rfl
  onPresent {p s c m} hs hc hm := by
    obtain ⟨hsection, hroom, -⟩ := hc.lists_present hm
    simp only [resources!, borrowed!_eq hsection hroom, ok_bind]
    refine flatMapM_eq_ok fun r hr => poolObjections!_eq hs ?_
    exact Program.lists_resourceId (Program.courseOf!_eq hsection).2 (List.mem_filter.1 hr).1

/-! ### Caps of teacher groups -/

/-- The number of entries in the teacher list of a section that belong to a group. -/
def members! (p : Program) (g : TeacherGroup) (id : SectionId) : Except Panic Nat := do
  return ((← p.teachersOf! id).filter (g.teacherIds.contains ·)).length

/-- The starts to drop, one after the other, until the load is down to the cap. -/
def shed! (cap : Nat) : (load : Nat) → List (Start × Nat) → Except Panic (List Start)
  | _, [] => .ok []
  | load, (a, n) :: rest =>
    if load ≤ cap then .ok []
    else do return a :: (← shed! cap (← subtract! load n) rest)

/-- What the cap of one group has against a period of a run. -/
def capObjections! (seed : UInt64) (s : Schedule p) (m : Present) (id : GroupId) :
    Except Panic (List Objection) := do
  let g ← p.group! id
  let own ← members! p g m.sectionId
  if own > g.cap then return [.flaw s!"{m.sectionId} alone exceeds the cap of {g.name}"]
  else do
    let entries ← ((← s.occurring! m.slot).filter (·.sectionId ≠ m.sectionId)).mapM fun o => do
      return (o.start, ← members! p g o.sectionId)
    let others := entries.filter (·.2 > 0)
    let load := own + total (others.map (·.2))
    if load ≤ g.cap then return []
    else do
      let dropped ← shed! g.cap load (drawLots (lot seed m id.val) others).reverse
      return [.clash dropped s!"{g.name} would exceed its cap of {g.cap} at {m.periodId}"]

/-- In every period at most `cap` entries of a group are teaching. -/
def teacherGroupCap! (seed : UInt64) : StrictRule where
  onPresent {p} s m := do
    let teachers ← p.teachersOf! m.sectionId
    (distinct (teachers.flatMap p.groupsOf)).flatMapM (capObjections! seed s m)

theorem members!_eq (g : TeacherGroup) {id : SectionId} (hid : p.record.Lists id) :
    members! p g id = .ok (members p g id) := by
  rw [members!, Program.teachersOf!_eq hid]
  rfl

/-- **What is dropped is part of the load.** -/
theorem shed!_eq (cap : Nat) {load : Nat} {l : List (Start × Nat)}
    (h : total (l.map (·.2)) ≤ load) : shed! cap load l = .ok (shed cap load l) := by
  induction l generalizing load with
  | nil => rfl
  | cons e l ih =>
    rw [List.map_cons, total_cons] at h
    rw [shed!, shed]
    split
    · rfl
    · rw [subtract!_eq (by omega), ok_bind, ih (by omega)]
      rfl

theorem capObjections!_eq (hs : s.Coherent) {seed : UInt64} {m : Present} {id : GroupId}
    (hm : p.record.Lists m.sectionId) (hid : p.record.Lists id) :
    capObjections! seed s m id = .ok (capObjections seed s m id) := by
  have hentries : ((s.occurring m.slot).filter (·.sectionId ≠ m.sectionId)).mapM (fun o => do
      return (o.start, ← members! p (p.group id) o.sectionId)) =
        (.ok (((s.occurring m.slot).filter (·.sectionId ≠ m.sectionId)).map fun o =>
          (o.start, members p (p.group id) o.sectionId)) : Except Panic _) := by
    refine mapM_eq_ok fun o ho => ?_
    rw [members!_eq _ (hs.lists_of_mem_occurring (List.mem_filter.1 ho).1).1]
    rfl
  rw [capObjections!, Program.group!_eq hid, ok_bind, members!_eq _ hm, ok_bind, s.occurring!_eq,
    capObjections_eq]
  simp only [ok_bind, hentries]
  split
  · rfl
  · change (if groupLoad s m (p.group id) ≤ _ then _ else _) = _
    split
    · rfl
    · rw [shed!_eq]
      · rfl
      · -- the lot draws from those whose load has been added up
        rw [total_eq_of_perm (((List.reverse_perm _).trans (drawLots_perm _ _)).map _)]
        exact Nat.le_add_left _ _

theorem agrees_teacherGroupCap! (seed : UInt64) :
    (teacherGroupCap! seed).Agrees (teacherGroupCap seed) where
  onStart _ _ := rfl
  onPresent {p s c m} hs hc hm := by
    have hsection := (hc.lists_present hm).1
    simp only [teacherGroupCap!, Program.teachersOf!_eq hsection, ok_bind]
    refine flatMapM_eq_ok fun id hid => capObjections!_eq hs hsection ?_
    obtain ⟨t, -, hid⟩ := List.mem_flatMap.1 (mem_distinct.1 hid)
    exact Program.lists_of_mem_groupsOf hid

/-! ### Rules of time -/

/-- Whether some section of a course is over before a slot. -/
def endsBefore! (s : Schedule p) (course : CourseId) (slot : Slot) : Except Panic Bool :=
  (p.sectionsOfCourse course).anyM fun id =>
    match s.startOf? id with
    | none => return false
    | some a => do return (← a.lastSlot!).precedes slot

/-- Of every prerequisite some section is over before the candidate starts. -/
def prerequisites! : StrictRule where
  onStart {p} s c := do
    (← p.courseOf! c.sectionId).prerequisiteIds.flatMapM fun course => do
      let title := (← p.course! course).title
      return require (← endsBefore! s course c.slot) s!"no section of {title} ends before {c.periodId}"

/-- A period for some grades hosts only courses for grades among them. -/
def gradeRange! : StrictRule where
  onPresent {p} _ m := do
    let period ← p.period! m.periodId
    match period.grades, (← p.courseOf! m.sectionId).grades with
    | some allowed, some wanted =>
      let description := period.description
      return require (allowed.encloses wanted)
        (s!"{description} is for grades {allowed.min}-{allowed.max}, " ++
          s!"course wants {wanted.min}-{wanted.max}")
    | _, _ => return []

/-- What a teacher has against losing the lunch periods that a candidate does not cover. -/
def lunchObjections! (s : Schedule p) (c : Start) (free : List Slot) (teacher : TeacherId) :
    Except Panic (List Objection) :=
  let others := ((p.sectionsOfTeacher teacher).filter (· ≠ c.sectionId)).filterMap fun id =>
    (s.startOf? id).filter (·.slot.blockId = c.slot.blockId)
  if free.all fun l => others.any (·.covers l) then do
    let name := (← p.teacher! teacher).name
    return [.clash (others.filter fun a => free.any a.covers) s!"{name} would have no lunch"]
  else return []

/-- Every teacher keeps a lunch period free in every block that has one. -/
def lunch! : StrictRule where
  onStart {p} s c := do
    let lunches := (← p.lunchPeriods! c.slot.blockId).map (·.slot)
    let free := lunches.filter fun l => !c.covers l
    let teachers ← p.teachersOf! c.sectionId
    if !lunches.any c.covers || teachers.isEmpty then return []
    else if free.isEmpty then
      return [.flaw s!"{c.sectionId} covers every lunch period of its block"]
    else teachers.flatMapM (lunchObjections! s c free)

theorem endsBefore!_eq (hs : s.Coherent) (course : CourseId) (slot : Slot) :
    endsBefore! s course slot = .ok (endsBefore s course slot) := by
  refine anyM_eq_ok fun id _ => ?_
  cases ha : s.startOf? id with
  | none => rfl
  | some a =>
    simp only [(hs.isOf ha).1.lastSlot!_eq, ok_bind]
    rfl

theorem agrees_prerequisites! : prerequisites!.Agrees prerequisites where
  onStart {p s c} hs hc := by
    obtain ⟨hcourse, hmem⟩ := Program.courseOf!_eq hc.lists.1
    simp only [prerequisites!, hcourse, ok_bind]
    refine flatMapM_eq_ok fun course hpre => ?_
    rw [(Program.course!_eq (Program.lists_prerequisiteId hmem hpre)).1, ok_bind, endsBefore!_eq hs]
    rfl
  onPresent _ _ _ := rfl

theorem agrees_gradeRange! : gradeRange!.Agrees gradeRange where
  onStart _ _ := rfl
  onPresent {p s c m} _ hc hm := by
    obtain ⟨hsection, -, hperiod⟩ := hc.lists_present hm
    simp only [gradeRange!, gradeRange, Program.period!_eq hperiod,
      (Program.courseOf!_eq hsection).1, ok_bind]
    cases (p.period m.periodId).grades with
    | none => rfl
    | some allowed => cases (p.courseOf m.sectionId).grades <;> rfl

theorem lunchObjections!_eq {c : Start} {free : List Slot} {t : TeacherId}
    (ht : p.record.Lists t) : lunchObjections! s c free t = .ok (lunchObjections s c free t) := by
  rw [lunchObjections!, lunchObjections_eq, Program.teacher!_eq ht]
  exact (apply_ite Except.ok _ _ _).symm

theorem agrees_lunch! : lunch!.Agrees lunch where
  onStart {p s c} _ hc := by
    obtain ⟨hsection, -, -, hblock⟩ := hc.lists
    simp only [lunch!, lunch, Program.lunchPeriods!_eq hblock, Program.teachersOf!_eq hsection,
      ok_bind]
    split
    · rfl
    · split
      · rfl
      · exact flatMapM_eq_ok fun t ht => lunchObjections!_eq
          (Program.lists_teacherId (Program.courseOf!_eq hsection).2 ht)
  onPresent _ _ _ := rfl

/-! ### Pinned placements -/

/-- Pinned sections stay put and keep their room and their teachers to themselves. -/
def locked! (pins : Pins) : StrictRule where
  onStart _ c :=
    match pins.find? c.sectionId with
    | .none => return []
    | some t =>
      return require (Pins.allows t c) s!"{t.sectionId} is locked to {t.roomId} at {t.periodId}"
  onPresent {p} s m :=
    if pins.isEmpty then return []
    else do
      let others := (← s.occurring! m.slot).filter fun o =>
        o.sectionId ≠ m.sectionId && pins.holds o.start
      others.flatMapM fun o => do
        let shared ← p.shareTeacher! m.sectionId o.sectionId
        return require (o.start.roomId ≠ m.roomId && !shared) s!"overlaps locked {o.start}"

theorem agrees_locked! (pins : Pins) : (locked! pins).Agrees (locked pins) where
  onStart {p s c} _ _ := by
    simp only [locked!, locked]
    cases pins.find? c.sectionId <;> rfl
  onPresent {p s c m} hs hc hm := by
    simp only [locked!, locked, s.occurring!_eq, ok_bind]
    split
    · rfl
    · refine flatMapM_eq_ok fun o ho => ?_
      rw [Program.shareTeacher!_eq (hc.lists_present hm).1
        (hs.lists_of_mem_occurring (List.mem_filter.1 ho).1).1]
      rfl

end Rule

/-! ## All rules -/

namespace RuleKind

/-- Makes the strict rule of a kind. -/
def strictRule (bounds : SizeBounds) (pins : Pins) (seed : UInt64) : RuleKind → StrictRule
  | duplicateSections => Rule.duplicateSections!
  | teacherConflict => Rule.teacherConflict!
  | localConflict => Rule.localConflict! bounds.minimum bounds.maximum
  | roomConflict => Rule.roomConflict!
  | roomProperties => Rule.roomProperties!
  | resources => Rule.resources! seed
  | prerequisites => Rule.prerequisites!
  | gradeRange => Rule.gradeRange!
  | teacherGroupCap => Rule.teacherGroupCap! seed
  | lunch => Rule.lunch!
  | locked => Rule.locked! pins

/-- **No rule that can be configured looks up anything in vain.** -/
theorem agrees_strictRule (bounds : SizeBounds) (pins : Pins) (seed : UInt64) (kind : RuleKind) :
    (kind.strictRule bounds pins seed).Agrees (kind.rule bounds pins seed) := by
  cases kind with
  | duplicateSections => exact Rule.agrees_duplicateSections!
  | teacherConflict => exact Rule.agrees_teacherConflict!
  | localConflict => exact Rule.agrees_localConflict! _ _
  | roomConflict => exact Rule.agrees_roomConflict!
  | roomProperties => exact Rule.agrees_roomProperties!
  | resources => exact Rule.agrees_resources! seed
  | prerequisites => exact Rule.agrees_prerequisites!
  | gradeRange => exact Rule.agrees_gradeRange!
  | teacherGroupCap => exact Rule.agrees_teacherGroupCap! seed
  | lunch => exact Rule.agrees_lunch!
  | locked => exact Rule.agrees_locked! pins

end RuleKind

end Timetable

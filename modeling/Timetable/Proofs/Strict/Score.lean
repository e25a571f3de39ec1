import Timetable.Proofs.Strict.Rule
import Timetable.Score.Weighted

/-!
# Strict evaluation: what is measured

All quantities that a score or a summary can be made of are measured strictly in every coherent
schedule.  What is looked up are the sections, rooms and courses of the starts that are placed, and
these are starts of the program.
-/

set_option autoImplicit false

namespace Timetable

namespace Schedule

variable {p : Program} (s : Schedule p)

/-! ## Strict measures -/

/-- The number of courses with a section placed. -/
def distinctCourses! : Except Panic Nat := do
  let courses ← s.scheduled.mapM fun id => do return (← p.sectionOf! id).courseId
  return (distinct courses).length

/-- The teachers of sections that are placed. -/
def activeTeachers! : Except Panic (List TeacherId) := do
  return distinct (← s.scheduled.flatMapM p.teachersOf!)

/-- The hours of all sections, each times the students it expects. -/
def studentHours! : Except Panic Float := do
  let hours ← s.starts.mapM fun c => do
    return (← p.courseOf! c.sectionId).estimatedSize.toFloat * c.length.toFloat
  return floatSum hours

/-- The starts a teacher teaches in the order of time, each as often as its course lists the
teacher. -/
def startsOf! (teacher : TeacherId) : Except Panic (List Start) := do
  let starts ← s.starts.flatMapM fun c => do
    return List.replicate ((← p.teachersOf! c.sectionId).count teacher) c
  return sorted starts

/-- Whether going from one room to another means moving. -/
def isMove! (p : Program) (a b : RoomId) : Except Panic Bool := do
  match (← p.room! a).buildingId, (← p.room! b).buildingId with
  | some x, some y => return x ≠ y
  | _, _ => return a ≠ b

/-- The number of neighbours in a list of starts of which the second begins where the first ends,
in another place. -/
def countMoves! (p : Program) : List Start → Except Panic Nat
  | a :: b :: rest => do
    let last ← a.lastSlot!
    let moved ← if last.later 1 = b.slot then isMove! p a.roomId b.roomId else pure false
    return (if moved then 1 else 0) + (← countMoves! p (b :: rest))
  | _ => return 0

/-- How often a teacher has to move between two classes without a break. -/
def backToBackMoves! : Except Panic Nat := do
  let counts ← (← s.activeTeachers!).mapM fun t => do countMoves! p (← s.startsOf! t)
  return total counts

/-- The number of students that the sections in session in a period have at most. -/
def seatsTaken! (id : PeriodId) : Except Panic Nat := do
  let seats ← s.starts.mapM fun c => do
    let moments ← c.presents! p
    return (← p.courseOf! c.sectionId).maxSize * (moments.filter (·.periodId = id)).length
  return total seats

/-- The same, over all periods. -/
def seatHours! : Except Panic Nat := do
  let seats ← s.starts.mapM fun c => do
    let moments ← c.presents! p
    return (← p.courseOf! c.sectionId).maxSize * moments.length
  return total seats

/-- How far the attendance of the periods is from the share expected of each, summed up. -/
def attendanceDeviation! : Except Panic Float := do
  let hours ← s.seatHours!
  if hours = 0 || p.periods.isEmpty then return 0.0
  else do
    let perPeriod := hours.toFloat / p.periods.length.toFloat
    let deviations ← (p.periods.filter (·.attendance > 0.0)).mapM fun q => do
      return ((← s.seatsTaken! q.id).toFloat / (q.attendance * perPeriod) - 1.0).abs
    return floatSum deviations

/-- The number of pairs of a room and a period in which the room is available and not used.  A room
may be used more than it is available, so this difference is meant to stop at zero. -/
def unusedRoomPeriods! : Except Panic Nat := do
  let unused ← p.rooms.mapM fun r => do
    return (← p.roomPeriods! r.id).length - total ((s.startsIn r.id).map (·.length))
  return total unused

/-- The number of sections that are in a room their course prefers. -/
def inPreferredRoom! : Except Panic Nat := do
  let preferred ← s.starts.filterM fun c => do
    return (← p.courseOf! c.sectionId).preferredRoomIds.contains c.roomId
  return preferred.length

/-- The seats that are missing or left over, as a share of all seats of the room, summed up over the
sections. -/
def roomMisfit! : Except Panic Float := do
  let misfits ← s.starts.mapM fun c => do
    let seats := (← p.room! c.roomId).capacity
    if seats = 0 then return 0.0
    else do
      return (seats.toFloat - (← p.courseOf! c.sectionId).maxSize.toFloat).abs / seats.toFloat
  return floatSum misfits

/-- The number of pairs of a section that is placed and a prerequisite some section of which is
over when it starts. -/
def prerequisitesInOrder! : Except Panic Nat := do
  let met ← s.starts.mapM fun c => do
    let courses ← (← p.courseOf! c.sectionId).prerequisiteIds.filterM fun course =>
      Rule.endsBefore! s course c.slot
    return courses.length
  return total met

end Schedule

/-- The value of a metric. -/
def Metric.evaluate! {p : Program} (s : Schedule p) : Metric → Except Panic Float
  | sectionsScheduled => return s.count.toFloat
  | distinctCoursesScheduled => do return (← s.distinctCourses!).toFloat
  | teachersWithClassesScheduled => do return (← s.activeTeachers!).length.toFloat
  | classHoursScheduled => return floatSum (s.starts.map (·.length.toFloat))
  | studentClassHoursScheduled => s.studentHours!
  | backToBackClasses => do return -(← s.backToBackMoves!).toFloat
  | globalAttendanceLevels => do return -(← s.attendanceDeviation!)
  | unusedRooms => do return (← s.unusedRoomPeriods!).toFloat
  | preferredRooms => do return (← s.inPreferredRoom!).toFloat
  | roomSizeFit => do return -(← s.roomMisfit!)
  | prerequisiteOrdering => do return (← s.prerequisitesInOrder!).toFloat

/-- The score that some terms give a schedule. -/
def scoreOf! {p : Program} (terms : List Term) (s : Schedule p) : Except Panic Float := do
  let values ← terms.mapM fun t => do
    return t.multiplier * signedPower (← t.metric.evaluate! s) t.exponent
  return floatSum values

/-- The summary of a schedule. -/
def Schedule.summary! {p : Program} (s : Schedule p) : Except Panic Summary := do
  return {
    sectionsScheduled := s.count
    sectionsUnscheduled := s.unscheduled.length
    distinctCourses := ← s.distinctCourses!
    teachersTeaching := (← s.activeTeachers!).length
    classHours := ← s.classHours.mapError .fault
    studentClassHours := ← s.studentHours!
    backToBackMoves := ← s.backToBackMoves!
    attendanceDeviation := ← s.attendanceDeviation!
    unusedRoomPeriods := ← s.unusedRoomPeriods! }

/-! ## Measures succeed -/

namespace Schedule.Coherent

variable {p : Program} {s : Schedule p} (h : s.Coherent)

include h

theorem lists_of_mem_scheduled {id : SectionId} (hid : id ∈ s.scheduled) : p.record.Lists id := by
  obtain ⟨a, ha⟩ := (OrderedMap.mem_keys_iff h.sections).1 hid
  obtain ⟨hof, rfl⟩ := h.isOf ha
  exact hof.lists.1

/-- What succeeds for every start of the program succeeds for all that are placed. -/
theorem mapM_starts {β : Type} {f : Start → Except Panic β} {g : Start → β}
    (hfg : ∀ c : Start, c.IsOf p → f c = .ok (g c)) : s.starts.mapM f = .ok (s.starts.map g) :=
  mapM_eq_ok fun c hc => hfg c (h.isOf_of_mem_starts hc)

theorem distinctCourses!_eq : s.distinctCourses! = .ok s.distinctCourses := by
  rw [distinctCourses!, mapM_eq_ok (g := fun id => (p.sectionOf id).courseId) fun id hid => ?_]
  · rfl
  · rw [(Program.sectionOf!_eq (h.lists_of_mem_scheduled hid)).1]
    rfl

theorem activeTeachers!_eq : s.activeTeachers! = .ok s.activeTeachers := by
  rw [activeTeachers!,
    flatMapM_eq_ok fun id hid => Program.teachersOf!_eq (h.lists_of_mem_scheduled hid)]
  rfl

theorem studentHours!_eq : s.studentHours! = .ok s.studentHours := by
  rw [studentHours!, h.mapM_starts (g := fun c =>
    (p.courseOf c.sectionId).estimatedSize.toFloat * c.length.toFloat) fun c hc => ?_]
  · rfl
  · rw [(Program.courseOf!_eq hc.lists.1).1]
    rfl

/-! ### Moves between rooms -/

theorem startsOf!_eq (t : TeacherId) : s.startsOf! t = .ok (s.startsOf t) := by
  rw [startsOf!, flatMapM_eq_ok (g := fun c =>
    List.replicate ((p.teachersOf c.sectionId).count t) c) fun c hc => ?_]
  · rfl
  · rw [Program.teachersOf!_eq (h.isOf_of_mem_starts hc).lists.1]
    rfl

theorem isOf_of_mem_startsOf {t : TeacherId} {c : Start} (hc : c ∈ s.startsOf t) : c.IsOf p := by
  obtain ⟨a, ha, hc⟩ := List.mem_flatMap.1 ((List.mergeSort_perm _ _).mem_iff.1 hc)
  rw [(List.mem_replicate.1 hc).2]
  exact h.isOf_of_mem_starts ha

omit h in
theorem isMove!_eq {a b : RoomId} (ha : p.record.Lists a) (hb : p.record.Lists b) :
    isMove! p a b = .ok (isMove p a b) := by
  rw [isMove!, (Program.room!_eq ha).1, ok_bind, (Program.room!_eq hb).1, ok_bind, isMove]
  cases (p.room a).buildingId with
  | none => rfl
  | some x => cases (p.room b).buildingId <;> rfl

omit h in
/-- A run ends one slot after its last one, because it has a last one. -/
theorem countMoves!_eq {l : List Start} (hl : ∀ c ∈ l, c.IsOf p) :
    countMoves! p l = .ok (countMoves p l) := by
  induction l with
  | nil => rfl
  | cons a l ih =>
    cases l with
    | nil => rfl
    | cons b l =>
      have ha := hl a List.mem_cons_self
      have hb := hl b (List.mem_cons_of_mem _ List.mem_cons_self)
      have hstop : a.lastSlot.later 1 = a.stop := by
        have := ha.length_pos
        rw [Start.lastSlot, Start.stop, Slot.later, Slot.later, Slot.later]
        simp only [Slot.mk.injEq, true_and]
        omega
      simp only [countMoves!, ha.lastSlot!_eq, ok_bind, hstop,
        isMove!_eq ha.lists.2.1 hb.lists.2.1, ih fun c hc => hl c (List.mem_cons_of_mem a hc)]
      rw [countMoves]
      by_cases hnext : a.stop = b.slot
      · rw [if_pos hnext, decide_eq_true hnext, Bool.true_and]
        rfl
      · rw [if_neg hnext, decide_eq_false hnext, Bool.false_and]
        rfl

theorem backToBackMoves!_eq : s.backToBackMoves! = .ok s.backToBackMoves := by
  rw [backToBackMoves!, h.activeTeachers!_eq, ok_bind,
    mapM_eq_ok (g := fun t => countMoves p (s.startsOf t)) fun t _ => ?_]
  · rfl
  · rw [h.startsOf!_eq, ok_bind, countMoves!_eq fun c hc => h.isOf_of_mem_startsOf hc]

/-! ### Attendance -/

theorem seatsTaken!_eq (id : PeriodId) : s.seatsTaken! id = .ok (s.seatsTaken id) := by
  rw [seatsTaken!, h.mapM_starts (g := fun c => (p.courseOf c.sectionId).maxSize *
    ((c.presents p).filter (·.periodId = id)).length) fun c hc => ?_]
  · rfl
  · rw [hc.presents!_eq, ok_bind, (Program.courseOf!_eq hc.lists.1).1]
    rfl

theorem seatHours!_eq : s.seatHours! = .ok s.seatHours := by
  rw [seatHours!, h.mapM_starts (g := fun c => (p.courseOf c.sectionId).maxSize * c.length)
    fun c hc => ?_]
  · rfl
  · rw [hc.presents!_eq, ok_bind, (Program.courseOf!_eq hc.lists.1).1, ok_bind,
      Start.length_presents]
    rfl

theorem attendanceDeviation!_eq : s.attendanceDeviation! = .ok s.attendanceDeviation := by
  rw [attendanceDeviation!, h.seatHours!_eq, ok_bind, attendanceDeviation]
  split
  · rfl
  · simp only
    rw [mapM_eq_ok (g := fun q : Period => ((s.seatsTaken q.id).toFloat /
      (q.attendance * (s.seatHours.toFloat / p.periods.length.toFloat)) - 1.0).abs) fun q _ => ?_]
    · rfl
    · rw [h.seatsTaken!_eq]
      rfl

/-! ### Rooms and order -/

omit h in
theorem unusedRoomPeriods!_eq (s : Schedule p) : s.unusedRoomPeriods! = .ok s.unusedRoomPeriods := by
  rw [unusedRoomPeriods!, mapM_eq_ok (g := fun r => s.unusedPeriods r.id) fun r hr => ?_]
  · rfl
  · rw [Program.roomPeriods!_eq (Program.lists_roomId hr)]
    rfl

theorem inPreferredRoom!_eq : s.inPreferredRoom! = .ok s.inPreferredRoom := by
  rw [inPreferredRoom!, filterM_eq_ok (g := fun c =>
    (p.courseOf c.sectionId).preferredRoomIds.contains c.roomId) fun c hc => ?_]
  · rfl
  · rw [(Program.courseOf!_eq (h.isOf_of_mem_starts hc).lists.1).1]
    rfl

theorem roomMisfit!_eq : s.roomMisfit! = .ok s.roomMisfit := by
  rw [roomMisfit!, roomMisfit, h.mapM_starts fun c hc => ?_]
  · rfl
  · rw [(Program.room!_eq hc.lists.2.1).1, (Program.courseOf!_eq hc.lists.1).1]
    exact (apply_ite Except.ok _ _ _).symm

theorem prerequisitesInOrder!_eq : s.prerequisitesInOrder! = .ok s.prerequisitesInOrder := by
  rw [prerequisitesInOrder!, h.mapM_starts (g := fun c =>
    ((p.courseOf c.sectionId).prerequisiteIds.filter fun course =>
      Rule.endsBefore s course c.slot).length) fun c hc => ?_]
  · rfl
  · rw [(Program.courseOf!_eq hc.lists.1).1, ok_bind,
      filterM_eq_ok fun course _ => Rule.endsBefore!_eq h course c.slot]
    rfl

/-! ### Scores and the summary -/

/-- **No metric looks up anything in vain.** -/
theorem evaluate!_eq (metric : Metric) : metric.evaluate! s = .ok (metric.evaluate s) := by
  cases metric with
  | sectionsScheduled => rfl
  | classHoursScheduled => rfl
  | distinctCoursesScheduled => rw [Metric.evaluate!, h.distinctCourses!_eq]; rfl
  | teachersWithClassesScheduled => rw [Metric.evaluate!, h.activeTeachers!_eq]; rfl
  | studentClassHoursScheduled => exact h.studentHours!_eq
  | backToBackClasses => rw [Metric.evaluate!, h.backToBackMoves!_eq]; rfl
  | globalAttendanceLevels => rw [Metric.evaluate!, h.attendanceDeviation!_eq]; rfl
  | unusedRooms => rw [Metric.evaluate!, unusedRoomPeriods!_eq]; rfl
  | preferredRooms => rw [Metric.evaluate!, h.inPreferredRoom!_eq]; rfl
  | roomSizeFit => rw [Metric.evaluate!, h.roomMisfit!_eq]; rfl
  | prerequisiteOrdering => rw [Metric.evaluate!, h.prerequisitesInOrder!_eq]; rfl

theorem scoreOf!_eq (terms : List Term) : scoreOf! terms s = .ok (scoreOf terms s) := by
  rw [scoreOf!, mapM_eq_ok (g := fun t => t.value s) fun t _ => ?_]
  · rfl
  · rw [h.evaluate!_eq]
    rfl

/-- **The summary looks up nothing in vain.** -/
theorem summary!_eq : s.summary! = s.summary.mapError .fault := by
  rw [summary!, summary, mapError_bind, h.distinctCourses!_eq, h.activeTeachers!_eq,
    h.studentHours!_eq, h.backToBackMoves!_eq, h.attendanceDeviation!_eq, unusedRoomPeriods!_eq]
  rfl

end Schedule.Coherent

end Timetable

import Timetable.Proofs.Force
import Timetable.Proofs.Loading
import Timetable.Proofs.Pinned

/-!
# What a verdict depends on

Whether a start may be placed depends on the starts that are placed and on the set of the rules.  It
depends neither on how the schedule came about, nor on the order of the rules and how often each is
given, nor on the seeds of those that draw lots.  The lots decide who is named, and a rule that has
to name somebody always finds somebody to name.

* `Schedule.Alike`: two schedules in which the same starts are placed.  `Rulebook.SameButForLots`:
  two rulebooks with the same rules, as far as they do not differ in seeds.
* `RuleKind.permits_congr` and `RuleKind.exists_names_congr`: a rule finds a fault, and names
  somebody, in both schedules or in neither, whatever the seeds.  Rules that draw no lots name the
  same starts (`RuleKind.names_congr`).
* `Rulebook.SameButForLots.perform` and `Rulebook.SameButForLots.session`: so a request gets the
  same reply, the schedules are alike afterwards, and the same goes for any number of requests.
* `RuleConfig.SameRules.same_verdicts` puts this in terms of configurations.
-/

set_option autoImplicit false

namespace Timetable

variable {p : Program} {book book' : Rulebook} {s t : Schedule p} {c a : Start}

/-! ## Schedules with the same starts -/

/-- Two coherent schedules in which the same starts are placed, whatever their indexes look like. -/
structure Schedule.Alike (s t : Schedule p) : Prop where
  left : s.Coherent
  right : t.Coherent
  holds_iff : ∀ a, s.Holds a ↔ t.Holds a

namespace Schedule.Alike

theorem refl (h : s.Coherent) : s.Alike s := ⟨h, h, fun _ => Iff.rfl⟩

variable (h : s.Alike t)

include h

theorem symm : t.Alike s := ⟨h.right, h.left, fun a => (h.holds_iff a).symm⟩

theorem starts_perm : s.starts.Perm t.starts := by
  refine (List.perm_ext_iff_of_nodup h.left.nodup_starts h.right.nodup_starts).2 fun a => ?_
  rw [h.left.mem_starts_iff, h.right.mem_starts_iff, h.holds_iff]

theorem starts_eq : s.starts = t.starts := h.left.starts_eq_of_perm h.right h.starts_perm

theorem startOf?_eq (id : SectionId) : s.startOf? id = t.startOf? id := by
  ext a
  rw [h.left.startOf?_eq_some_iff, h.right.startOf?_eq_some_iff, h.holds_iff]

theorem startingAt?_eq (slot : Slot) (room : RoomId) :
    s.startingAt? slot room = t.startingAt? slot room := by
  ext a
  rw [h.left.startingAt?_eq_some_iff, h.right.startingAt?_eq_some_iff, h.holds_iff]

theorem holdsLess : s.HoldsLess t c := fun a ha _ => (h.holds_iff a).1 ha

theorem isPartOf : s.IsPartOf t := fun a ha => (h.holds_iff a).1 ha

end Schedule.Alike

/-! ## Somebody is always found -/

namespace Rule

/-- If all units of a resource are in use, some borrower is named. -/
theorem exists_names_resources_iff {seed : UInt64} : (∃ a, (resources seed).Names s c a) ↔
    ∃ m ∈ c.presents p, ∃ q ∈ borrowed p c.sectionId c.roomId,
      (p.resource q).floating ≠ 0 ∧ (p.resource q).floating ≤ (borrowers s m q).length := by
  constructor
  · rintro ⟨a, ha⟩
    obtain ⟨m, hm, q, hq, hunits, hfull, -⟩ := names_resources_iff.1 ha
    exact ⟨m, hm, q, hq, hunits, hfull⟩
  · rintro ⟨m, hm, q, hq, hunits, hfull⟩
    have hsome : (drawLots (lot seed m q.val) (borrowers s m q)).take
        ((borrowers s m q).length + 1 - (p.resource q).floating) ≠ [] := by
      rw [← List.length_pos_iff, List.length_take, (drawLots_perm _ _).length_eq]
      omega
    obtain ⟨a, ha⟩ := List.exists_mem_of_ne_nil _ hsome
    exact ⟨a, names_resources_iff.2 ⟨m, hm, q, hq, hunits, hfull, ha⟩⟩

/-- If a section that is within a cap brings a group above it, somebody else is named. -/
theorem exists_names_teacherGroupCap_iff {seed : UInt64} :
    (∃ a, (teacherGroupCap seed).Names s c a) ↔
      ∃ m ∈ c.presents p, ∃ t ∈ p.teachersOf c.sectionId, ∃ id ∈ p.groupsOf t,
        members p (p.group id) m.sectionId ≤ (p.group id).cap ∧
          (p.group id).cap < groupLoad s m (p.group id) := by
  constructor
  · rintro ⟨a, ha⟩
    obtain ⟨m, hm, t, ht, id, hid, hown, hload, -⟩ := names_teacherGroupCap_iff.1 ha
    exact ⟨m, hm, t, ht, id, hid, hown, hload⟩
  · rintro ⟨m, hm, t, ht, id, hid, hown, hload⟩
    have hothers : groupStarts s m (p.group id) ≠ [] := by
      intro hnil
      rw [groupLoad, hnil, List.map_nil, total_nil] at hload
      omega
    have hsome : shed (p.group id).cap (groupLoad s m (p.group id))
        (drawLots (lot seed m id.val) (groupStarts s m (p.group id))).reverse ≠ [] := by
      rw [Ne, shed_eq_nil_iff hload, List.reverse_eq_nil_iff]
      exact fun hnil => hothers (List.perm_nil.1 (hnil ▸ (drawLots_perm _ _).symm))
    obtain ⟨a, ha⟩ := List.exists_mem_of_ne_nil _ hsome
    exact ⟨a, names_teacherGroupCap_iff.2 ⟨m, hm, t, ht, id, hid, hown, hload, ha⟩⟩

/-! ## What the rules count -/

theorem length_borrowers_congr (h : s.Alike t) (m : Present) (q : ResourceId) :
    (borrowers s m q).length = (borrowers t m q).length := by
  refine ((List.perm_ext_iff_of_nodup (nodup_borrowers h.left) (nodup_borrowers h.right)).2
    fun a => ?_).length_eq
  rw [mem_borrowers_iff_holds h.left, mem_borrowers_iff_holds h.right, h.holds_iff]

theorem groupLoad_congr (h : s.Alike t) (m : Present) (g : TeacherGroup) :
    groupLoad s m g = groupLoad t m g := by
  have hperm : (groupStarts s m g).Perm (groupStarts t m g) := by
    refine (List.perm_ext_iff_of_nodup (nodup_groupStarts h.left) (nodup_groupStarts h.right)).2 ?_
    rintro ⟨a, n⟩
    rw [mem_groupStarts_iff_holds h.left, mem_groupStarts_iff_holds h.right, h.holds_iff]
  rw [groupLoad, groupLoad, total_eq_of_perm (hperm.map _)]

theorem mem_startsBeside_congr (h : s.Alike t) (teacher : TeacherId) :
    a ∈ startsBeside s c teacher ↔ a ∈ startsBeside t c teacher := by
  rw [mem_startsBeside_iff_holds h.left, mem_startsBeside_iff_holds h.right, h.holds_iff]

/-- More that is placed does not take away what comes before a start. -/
theorem permits_prerequisites_of_isPartOf (hs : s.Coherent) (ht : t.Coherent)
    (hpart : s.IsPartOf t) (h : prerequisites.Permits s c) : prerequisites.Permits t c := by
  rw [permits_prerequisites_iff] at h ⊢
  intro course hcourse
  obtain ⟨a, ha, hid, hends⟩ := (endsBefore_iff hs).1 (h course hcourse)
  exact (endsBefore_iff ht).2
    ⟨a, ht.mem_starts_iff.2 (hpart a (hs.mem_starts_iff.1 ha)), hid, hends⟩

end Rule

/-! ## Rules of one kind -/

namespace RuleKind

variable {bounds : SizeBounds} {pins : Pins} {seed seed' : UInt64} {kind : RuleKind}

/-- Whether a rule may have to choose who makes way. -/
def drawsLots : RuleKind → Bool
  | resources => true
  | teacherGroupCap => true
  | _ => false

/-- **Two rules of a kind find fault with a start in both of two schedules or in neither.** -/
theorem permits_congr (h : s.Alike t) : (kind.rule bounds pins seed).Permits s c ↔
    (kind.rule bounds pins seed').Permits t c := by
  have hone : ∀ {s t : Schedule p} {seed seed' : UInt64}, s.Alike t →
      (kind.rule bounds pins seed).Permits s c → (kind.rule bounds pins seed').Permits t c := by
    intro s t seed seed' h hpermits
    by_cases hkind : kind = .prerequisites
    · subst hkind
      exact Rule.permits_prerequisites_of_isPartOf h.left h.right h.isPartOf hpermits
    · have hless : t.HoldsLess s c := h.symm.holdsLess
      exact permits_of_seed seed' (permits_of_holdsLess h.left h.right hless hkind hpermits)
  exact ⟨hone h, hone h.symm⟩

/-- **Rules that draw no lots name the same starts.** -/
theorem names_congr (h : s.Alike t) (hc : c.IsOf p) (hkind : kind.drawsLots = false) :
    (kind.rule bounds pins seed).Names s c a ↔ (kind.rule bounds pins seed').Names t c a := by
  cases kind with
  | resources | teacherGroupCap => cases hkind
  | duplicateSections =>
    refine Rule.names_duplicateSections_iff.trans
      (Iff.trans ?_ Rule.names_duplicateSections_iff.symm)
    rw [h.startOf?_eq]
  | teacherConflict =>
    refine (Rule.names_teacherConflict_iff h.left hc).trans
      (Iff.trans ?_ (Rule.names_teacherConflict_iff h.right hc).symm)
    rw [h.holds_iff]
  | roomConflict =>
    refine (Rule.names_roomConflict_iff h.left hc).trans
      (Iff.trans ?_ (Rule.names_roomConflict_iff h.right hc).symm)
    rw [h.holds_iff]
  | lunch =>
    refine Rule.names_lunch_iff.trans (Iff.trans ?_ Rule.names_lunch_iff.symm)
    simp only [Rule.mem_startsBeside_congr h]
  | localConflict =>
    exact iff_of_false Rule.not_names_localConflict Rule.not_names_localConflict
  | roomProperties =>
    exact iff_of_false Rule.not_names_roomProperties Rule.not_names_roomProperties
  | prerequisites => exact iff_of_false Rule.not_names_prerequisites Rule.not_names_prerequisites
  | gradeRange => exact iff_of_false Rule.not_names_gradeRange Rule.not_names_gradeRange
  | locked => exact iff_of_false Rule.not_names_locked Rule.not_names_locked

/-- **Two rules of a kind name somebody in both of two schedules or in neither**, if perhaps not the
same starts. -/
theorem exists_names_congr (h : s.Alike t) (hc : c.IsOf p) :
    (∃ a, (kind.rule bounds pins seed).Names s c a) ↔
      ∃ a, (kind.rule bounds pins seed').Names t c a := by
  cases hkind : kind.drawsLots with
  | false => exact exists_congr fun a => names_congr h hc hkind
  | true =>
    cases kind with
    | resources =>
      refine Rule.exists_names_resources_iff.trans
        (Iff.trans ?_ Rule.exists_names_resources_iff.symm)
      simp only [Rule.length_borrowers_congr h]
    | teacherGroupCap =>
      refine Rule.exists_names_teacherGroupCap_iff.trans
        (Iff.trans ?_ Rule.exists_names_teacherGroupCap_iff.symm)
      simp only [Rule.groupLoad_congr h]
    | _ => cases hkind

end RuleKind

/-! ## Rulebooks -/

namespace Rulebook

/-- Every rule of one rulebook is in the other one, too, with a seed of its own. -/
def IsCoveredBy (book book' : Rulebook) : Prop :=
  ∀ r ∈ book.rules, ∃ kind bounds pins seed seed',
    r = RuleKind.rule bounds pins seed kind ∧ RuleKind.rule bounds pins seed' kind ∈ book'.rules

/-- Two rulebooks pin the same and have the same rules, in whatever order and however often, if
perhaps with other seeds. -/
structure SameButForLots (book book' : Rulebook) : Prop where
  pins_eq : book.pins = book'.pins
  covered : book.IsCoveredBy book'
  covers : book'.IsCoveredBy book

theorem IsBuiltIn.sameButForLots (h : book.IsBuiltIn) : book.SameButForLots book := by
  have hcovered : book.IsCoveredBy book := fun r hr =>
    have ⟨kind, bounds, pins, seed, he⟩ := h r hr
    ⟨kind, bounds, pins, seed, seed, he, he ▸ hr⟩
  exact ⟨rfl, hcovered, hcovered⟩

namespace SameButForLots

variable (h : book.SameButForLots book')

include h

theorem symm : book'.SameButForLots book := ⟨h.pins_eq.symm, h.covers, h.covered⟩

/-- What is true of the rules of one rulebook is true of those of the other one, if it passes from a
rule to that of the same kind with any other seed. -/
theorem forall_rules {P Q : Rule → Prop} (hPQ : ∀ kind bounds pins seed seed',
      P (RuleKind.rule bounds pins seed kind) → Q (RuleKind.rule bounds pins seed' kind))
    (hP : ∀ r ∈ book.rules, P r) : ∀ r ∈ book'.rules, Q r := by
  intro r hr
  obtain ⟨kind, bounds, pins, seed, seed', rfl, hmem⟩ := h.covers r hr
  exact hPQ kind bounds pins seed' seed (hP _ hmem)

/-- **Faults are found by both rulebooks or by neither.** -/
theorem isLocallyValid_iff (hst : s.Alike t) :
    (book.validate s c).isLocallyValid ↔ (book'.validate t c).isLocallyValid := by
  rw [isLocallyValid_validate_iff, isLocallyValid_validate_iff, h.pins_eq]
  refine or_congr_right ⟨?_, ?_⟩
  · exact h.forall_rules fun _ _ _ _ _ => (RuleKind.permits_congr hst).1
  · exact h.symm.forall_rules fun _ _ _ _ _ => (RuleKind.permits_congr hst).2

/-- **Both rulebooks let a start be placed or neither does.** -/
theorem isValid_iff (hst : s.Alike t) (hc : c.IsOf p) :
    (book.validate s c).isValid ↔ (book'.validate t c).isValid := by
  rw [isValid_validate_iff, isValid_validate_iff, ← isLocallyValid_validate_iff,
    ← isLocallyValid_validate_iff, h.isLocallyValid_iff hst]
  refine and_congr_right fun _ => ⟨?_, ?_⟩
  · refine h.forall_rules fun _ _ _ _ _ hnone a ha => ?_
    obtain ⟨b, hb⟩ := (RuleKind.exists_names_congr hst hc).2 ⟨a, ha⟩
    exact hnone b hb
  · refine h.symm.forall_rules fun _ _ _ _ _ hnone a ha => ?_
    obtain ⟨b, hb⟩ := (RuleKind.exists_names_congr hst hc).1 ⟨a, ha⟩
    exact hnone b hb

end SameButForLots

end Rulebook

/-! ## Replies to requests -/

/-- What may be asked of a schedule, apart from forcing a start, which is up to the lots. -/
inductive Request (p : Program)
  | assign (c : Start) (isOf : c.IsOf p)
  | removeAt (slot : Slot) (room : RoomId)
  | removeSection (id : SectionId)
  | load (triples : List Triple)
  | loadLenient (triples : List Triple)

/-- The reply to a request. -/
inductive Reply
  /-- Whether a start was placed, and if not, whether it was all right by itself. -/
  | assigned (placed allRight : Bool)
  /-- What was taken out, if anything. -/
  | removed (start : Option Start)
  /-- A schedule was loaded, or why not. -/
  | loaded (refusal : Option PlacementError)
  deriving DecidableEq

/-- An error without the text of a report, which names those who have to make way. -/
def PlacementError.withoutReason : PlacementError → PlacementError
  | conflict id period _ => conflict id period ""
  | e => e

/-- The reply to a request, and the schedule there is then.  If nothing can be loaded, it is the one
there was. -/
def Request.perform (book : Rulebook) (s : Schedule p) : Request p → Reply × Schedule p
  | assign c _ =>
    let (report, t) := book.assign s c
    (.assigned report.isValid report.isLocallyValid, t)
  | removeAt slot room =>
    let (start, t) := s.removeAt slot room
    (.removed start, t)
  | removeSection id =>
    let (start, t) := s.removeSection id
    (.removed start, t)
  | load triples =>
    match book.load p triples with
    | .ok t => (.loaded none, t)
    | .error e => (.loaded (some e.withoutReason), s)
  | loadLenient triples =>
    match book.loadLenient p triples with
    | .ok t => (.loaded none, t)
    | .error f => (.loaded (some (.fault f)), s)

/-- The replies to requests that are made one after the other, and the schedule there is then. -/
def Rulebook.session (book : Rulebook) : Schedule p → List (Request p) → List Reply × Schedule p
  | s, [] => ([], s)
  | s, request :: requests =>
    let (reply, t) := request.perform book s
    let (replies, u) := book.session t requests
    (reply :: replies, u)

namespace Schedule.Alike

theorem add (h : s.Alike t) (hc : c.IsOf p) (hfresh : s.startOf? c.sectionId = none)
    (hclear : ∀ a, s.Holds a → a.roomId = c.roomId → ¬ a.overlaps c) :
    (s.add c).Alike (t.add c) where
  left := h.left.add hc hfresh hclear
  right := h.right.add hc (h.startOf?_eq _ ▸ hfresh) fun a ha => hclear a ((h.holds_iff a).2 ha)
  holds_iff a := by
    rw [h.left.holds_add hfresh, h.right.holds_add (h.startOf?_eq _ ▸ hfresh), h.holds_iff]

theorem removeAt (h : s.Alike t) (slot : Slot) (room : RoomId) :
    (s.removeAt slot room).1 = (t.removeAt slot room).1 ∧
      (s.removeAt slot room).2.Alike (t.removeAt slot room).2 := by
  obtain ⟨hs, hholds⟩ := h.left.removeAt slot room
  obtain ⟨ht, hholds'⟩ := h.right.removeAt slot room
  refine ⟨?_, hs, ht, fun a => by rw [hholds, hholds', h.holds_iff]⟩
  rw [Schedule.removeAt, Schedule.removeAt, h.startingAt?_eq]
  cases t.startingAt? slot room <;> rfl

theorem removeSection (h : s.Alike t) (id : SectionId) :
    (s.removeSection id).1 = (t.removeSection id).1 ∧
      (s.removeSection id).2.Alike (t.removeSection id).2 := by
  obtain ⟨hs, hholds⟩ := h.left.removeSection id
  obtain ⟨ht, hholds'⟩ := h.right.removeSection id
  refine ⟨?_, hs, ht, fun a => by rw [hholds, hholds', h.holds_iff]⟩
  rw [Schedule.removeSection, Schedule.removeSection, h.startOf?_eq]
  cases t.startOf? id <;> rfl

section Placing

variable (hbooks : book.SameButForLots book') (hdup : .duplicateSections ∈ book.rules)
  (hroom : .roomConflict ∈ book.rules)

include hbooks hdup hroom

/-- A start is placed under both rulebooks or under neither. -/
theorem assign (h : s.Alike t) (hc : c.IsOf p) :
    (book.assign s c).2.Alike (book'.assign t c).2 := by
  by_cases hv : (book.validate s c).isValid
  · rw [Rulebook.assign_of_isValid hv, Rulebook.assign_of_isValid ((hbooks.isValid_iff h hc).1 hv)]
    exact h.add hc (Rulebook.startOf?_eq_none_of_isValid hdup hv)
      (Rulebook.not_overlaps_of_isValid h.left hdup hroom hc hv)
  · rw [Rulebook.assign_of_not_isValid hv,
      Rulebook.assign_of_not_isValid (mt (hbooks.isValid_iff h hc).2 hv)]
    exact h

theorem placeSome (h : s.Alike t) {l : List Start} (hl : ∀ c ∈ l, c.IsOf p) :
    (book.placeSome s l).Alike (book'.placeSome t l) := by
  induction l generalizing s t with
  | nil => exact h
  | cons c l ih =>
    exact ih (h.assign hbooks hdup hroom (hl c List.mem_cons_self))
      fun b hb => hl b (List.mem_cons_of_mem c hb)

/-- Placing starts one after the other succeeds under both rulebooks or stops at the same start. -/
theorem placeAll (h : s.Alike t) {l : List Start} (hl : ∀ c ∈ l, c.IsOf p) :
    (∃ u v, book.placeAll s l = .ok u ∧ book'.placeAll t l = .ok v ∧ u.Alike v) ∨
      ∃ id period reason reason', book.placeAll s l = .error (.conflict id period reason) ∧
        book'.placeAll t l = .error (.conflict id period reason') := by
  induction l generalizing s t with
  | nil => exact .inl ⟨s, t, rfl, rfl, h⟩
  | cons c l ih =>
    have hc := hl c List.mem_cons_self
    by_cases hv : (book.validate s c).isValid
    · have hv' := (hbooks.isValid_iff h hc).1 hv
      have hassign := h.assign hbooks hdup hroom hc
      rw [Rulebook.assign_of_isValid hv, Rulebook.assign_of_isValid hv'] at hassign
      rw [Rulebook.placeAll_cons_of_isValid hv, Rulebook.placeAll_cons_of_isValid hv']
      exact ih hassign fun b hb => hl b (List.mem_cons_of_mem c hb)
    · have hv' := mt (hbooks.isValid_iff h hc).2 hv
      rw [Rulebook.placeAll_cons_of_not_isValid hv, Rulebook.placeAll_cons_of_not_isValid hv']
      exact .inr ⟨_, _, _, _, rfl, rfl⟩

end Placing

end Schedule.Alike

namespace Rulebook.SameButForLots

variable (h : book.SameButForLots book')

include h

theorem placementOrder_eq (starts : List (Bool × Start)) :
    book.placementOrder starts = book'.placementOrder starts := by
  rw [placementOrder, placementOrder, h.pins_eq]

variable (hdup : .duplicateSections ∈ book.rules) (hroom : .roomConflict ∈ book.rules)

include hdup hroom

/-- What triples describe is loaded under both rulebooks, or it is refused alike. -/
theorem load (p : Program) (triples : List Triple) :
    (∃ u v : Schedule p, book.load p triples = .ok u ∧ book'.load p triples = .ok v ∧ u.Alike v) ∨
      ∃ e e', book.load p triples = .error e ∧ book'.load p triples = .error e' ∧
        e.withoutReason = e'.withoutReason := by
  rw [Rulebook.load, Rulebook.load]
  cases hstarts : triples.mapM fun t => (t.resolve p).map fun s => (t.locked, s) with
  | error e => exact .inr ⟨e, e, rfl, rfl, rfl⟩
  | ok starts =>
    simp only [ok_bind, ← h.placementOrder_eq]
    rcases (Schedule.Alike.refl .empty).placeAll h hdup hroom
      (fun c => isOf_of_mapM_resolve hstarts) with halike | ⟨id, period, reason, reason', he, he'⟩
    · exact .inl halike
    · exact .inr ⟨_, _, he, he', rfl⟩

theorem loadLenient (p : Program) (triples : List Triple) :
    (∃ u v : Schedule p, book.loadLenient p triples = .ok u ∧ book'.loadLenient p triples = .ok v ∧
      u.Alike v) ∨
      ∃ f, book.loadLenient p triples = .error f ∧ book'.loadLenient p triples = .error f := by
  rw [Rulebook.loadLenient, Rulebook.loadLenient]
  cases hstarts : triples.mapM fun t =>
      PlacementError.toOption ((t.resolve p).map fun s => (t.locked, s)) with
  | error f => exact .inr ⟨f, rfl, rfl⟩
  | ok starts =>
    simp only [ok_bind, ← h.placementOrder_eq]
    exact .inl ⟨_, _, rfl, rfl, (Schedule.Alike.refl .empty).placeSome h hdup hroom
      fun c => isOf_of_mapM_toOption hstarts⟩

/-- **A request gets the same reply under both rulebooks.** -/
theorem perform (hst : s.Alike t) (request : Request p) :
    (request.perform book s).1 = (request.perform book' t).1 ∧
      (request.perform book s).2.Alike (request.perform book' t).2 := by
  cases request with
  | assign c hc =>
    refine ⟨?_, hst.assign h hdup hroom hc⟩
    exact congrArg₂ Reply.assigned (Bool.eq_iff_iff.2 (h.isValid_iff hst hc))
      (Bool.eq_iff_iff.2 (h.isLocallyValid_iff hst))
  | removeAt slot room =>
    obtain ⟨hstart, halike⟩ := hst.removeAt slot room
    exact ⟨congrArg Reply.removed hstart, halike⟩
  | removeSection id =>
    obtain ⟨hstart, halike⟩ := hst.removeSection id
    exact ⟨congrArg Reply.removed hstart, halike⟩
  | load triples =>
    rcases h.load hdup hroom p triples with ⟨u, v, hu, hv, huv⟩ | ⟨e, e', he, he', hsame⟩
    · simp only [Request.perform, hu, hv, huv, and_self]
    · simp only [Request.perform, he, he', hsame, hst, and_self]
  | loadLenient triples =>
    rcases h.loadLenient hdup hroom p triples with ⟨u, v, hu, hv, huv⟩ | ⟨f, hf, hf'⟩
    · simp only [Request.perform, hu, hv, huv, and_self]
    · simp only [Request.perform, hf, hf', hst, and_self]

/-- **So are any number of requests.** -/
theorem session (hst : s.Alike t) (requests : List (Request p)) :
    (book.session s requests).1 = (book'.session t requests).1 ∧
      (book.session s requests).2.Alike (book'.session t requests).2 := by
  induction requests generalizing s t with
  | nil => exact ⟨rfl, hst⟩
  | cons request requests ih =>
    obtain ⟨hreply, halike⟩ := h.perform hdup hroom hst request
    obtain ⟨hreplies, hend⟩ := ih halike
    exact ⟨congrArg₂ List.cons hreply hreplies, hend⟩

end Rulebook.SameButForLots

/-! ## Configurations -/

/-- Two configurations select the same rules, in whatever order and however often, with the same
parameters and pinned placements.  Their seeds may differ. -/
structure RuleConfig.SameRules (config config' : RuleConfig) : Prop where
  mem_rules_iff : ∀ kind, kind ∈ config.rules ↔ kind ∈ config'.rules
  bounds_eq : config.bounds = config'.bounds
  pinned_eq : config.pinned = config'.pinned

namespace RuleConfig.SameRules

variable {config config' : RuleConfig} (h : config.SameRules config')

include h

theorem symm : config'.SameRules config :=
  ⟨fun kind => (h.mem_rules_iff kind).symm, h.bounds_eq.symm, h.pinned_eq.symm⟩

theorem isCoveredBy : config.rulebook.IsCoveredBy config'.rulebook := by
  intro r hr
  obtain ⟨i, kind, hi, rfl⟩ := config.mem_rules_rulebook.1 hr
  obtain ⟨seed', hmem⟩ := exists_rule_mem ((h.mem_rules_iff kind).1 (List.mem_of_getElem? hi))
  rw [h.bounds_eq, h.pinned_eq]
  exact ⟨kind, _, _, _, seed', rfl, hmem⟩

theorem sameButForLots : config.rulebook.SameButForLots config'.rulebook where
  pins_eq := by rw [rulebook, rulebook, h.pinned_eq]
  covered := h.isCoveredBy
  covers := h.symm.isCoveredBy

theorem coherent (hdup : .duplicateSections ∈ config.rules) (hroom : .roomConflict ∈ config.rules)
    (hs : Reachable config.rulebook s ∨ Reachable config'.rulebook s) : s.Coherent := by
  rcases hs with hs | hs
  · exact coherent_of_reaches hdup hroom hs
  · exact coherent_of_reaches ((h.mem_rules_iff _).1 hdup) ((h.mem_rules_iff _).1 hroom) hs

theorem exists_names (hlots : ∀ kind ∈ config.rules, kind.drawsLots = false) (hst : s.Alike t)
    (hc : c.IsOf p) (ha : ∃ r ∈ config.rulebook.rules, r.Names s c a) :
    ∃ r ∈ config'.rulebook.rules, r.Names t c a := by
  obtain ⟨r, hr, ha⟩ := ha
  obtain ⟨i, kind, hi, rfl⟩ := config.mem_rules_rulebook.1 hr
  have hkind := List.mem_of_getElem? hi
  obtain ⟨seed', hmem⟩ := exists_rule_mem ((h.mem_rules_iff kind).1 hkind)
  rw [h.bounds_eq, h.pinned_eq] at ha
  exact ⟨_, hmem, (RuleKind.names_congr hst hc (hlots kind hkind)).1 ha⟩

/-- If no rule draws lots, the same starts have to make way. -/
theorem evictions_eq (hlots : ∀ kind ∈ config.rules, kind.drawsLots = false) (hst : s.Alike t)
    (hc : c.IsOf p) :
    (config.rulebook.validate s c).evictions = (config'.rulebook.validate t c).evictions := by
  have hlots' : ∀ kind ∈ config'.rules, kind.drawsLots = false :=
    fun kind hkind => hlots kind ((h.mem_rules_iff kind).2 hkind)
  refine distinct_eq_of_mem_iff fun a => ?_
  calc a ∈ (config.rulebook.validate s c).globals.flatMap (·.clashes)
    _ ↔ a ∈ (config.rulebook.validate s c).evictions := mem_distinct.symm
    _ ↔ a ∈ (config'.rulebook.validate t c).evictions := by
      rw [Rulebook.mem_evictions_validate_iff, Rulebook.mem_evictions_validate_iff]
      exact ⟨h.exists_names hlots hst hc, h.symm.exists_names hlots' hst.symm hc⟩
    _ ↔ a ∈ (config'.rulebook.validate t c).globals.flatMap (·.clashes) := mem_distinct

end RuleConfig.SameRules

/-- **Verdicts depend on the starts that are placed and on the set of the rules.**  The order of the
rules, how often each is given and the seeds make no difference to them, nor to the replies to any
requests.  They make none to whom a start clashes with, either, if no rule draws lots. -/
theorem RuleConfig.SameRules.same_verdicts {config config' : RuleConfig}
    (h : config.SameRules config') (hdup : .duplicateSections ∈ config.rules)
    (hroom : .roomConflict ∈ config.rules)
    (hs : Reachable config.rulebook s ∨ Reachable config'.rulebook s)
    (ht : Reachable config.rulebook t ∨ Reachable config'.rulebook t)
    (hst : ∀ a, a ∈ s.starts ↔ a ∈ t.starts) :
    (∀ c, c.IsOf p →
      (config.rulebook.validate s c).isValid = (config'.rulebook.validate t c).isValid ∧
        (config.rulebook.validate s c).isLocallyValid =
          (config'.rulebook.validate t c).isLocallyValid) ∧
      (∀ requests : List (Request p),
        (config.rulebook.session s requests).1 = (config'.rulebook.session t requests).1 ∧
          (config.rulebook.session s requests).2.starts =
            (config'.rulebook.session t requests).2.starts) ∧
      (.resources ∉ config.rules → .teacherGroupCap ∉ config.rules → ∀ c, c.IsOf p →
        (config.rulebook.validate s c).evictions = (config'.rulebook.validate t c).evictions) := by
  have hleft := h.coherent hdup hroom hs
  have hright := h.coherent hdup hroom ht
  have halike : s.Alike t :=
    ⟨hleft, hright, fun a => by rw [← hleft.mem_starts_iff, hst, hright.mem_starts_iff]⟩
  have hbooks := h.sameButForLots
  obtain ⟨_, hdup⟩ := exists_rule_mem hdup
  obtain ⟨_, hroom⟩ := exists_rule_mem hroom
  refine ⟨fun c hc => ⟨?_, ?_⟩, fun requests => ?_, fun hresources hcap c hc => ?_⟩
  · exact Bool.eq_iff_iff.2 (hbooks.isValid_iff halike hc)
  · exact Bool.eq_iff_iff.2 (hbooks.isLocallyValid_iff halike)
  · obtain ⟨hreplies, hend⟩ := hbooks.session hdup hroom halike requests
    exact ⟨hreplies, hend.starts_eq⟩
  · refine h.evictions_eq (fun kind hkind => ?_) halike hc
    cases kind with
    | resources => exact absurd hkind hresources
    | teacherGroupCap => exact absurd hkind hcap
    | _ => rfl

namespace Contested

/-- The rules against double booking and that of lunch breaks. -/
def lunchConfig : RuleConfig := config [.duplicateSections, .roomConflict, .lunch]

/-- The same rules in another order, one of them twice, and with a seed. -/
def shuffledConfig : RuleConfig :=
  { config [.lunch, .roomConflict, .duplicateSections, .lunch] with seed := some 7 }

theorem sameRules_shuffledConfig : lunchConfig.SameRules shuffledConfig :=
  ⟨fun kind => by cases kind <;> decide, rfl, rfl⟩

/-- The pinned section is placed after another one was placed and taken out again. -/
def heldAgain : Schedule program :=
  let emptied := ((shuffledConfig.rulebook.assign (.empty program) borrower).2.removeSection ⟨2⟩).2
  (shuffledConfig.rulebook.assign emptied pinnedStart).2

theorem reachable_heldAgain : Reachable shuffledConfig.rulebook heldAgain := by
  have hborrower : Reachable shuffledConfig.rulebook _ :=
    Reaches.refl.assign trivial (isOf_rival borrower List.mem_cons_self)
  have hemptied := @Reaches.step _ _ _ _ _ _ (.removeSection ⟨2⟩) hborrower trivial rfl
  exact hemptied.assign trivial isOf_pinnedStart

theorem isOf_laterLesson : laterLesson.IsOf program := by rfl

/-- The later lesson clashes with the pinned start until that is taken out. -/
def requests : List (Request program) :=
  [.assign laterLesson isOf_laterLesson, .removeSection ⟨1⟩, .assign laterLesson isOf_laterLesson]

end Contested

open Contested in
theorem same_verdicts_heldAgain :
    (shuffledConfig.rulebook.validate heldAgain laterLesson).isValid = false ∧
      (shuffledConfig.rulebook.validate heldAgain laterLesson).evictions = [pinnedStart] ∧
      (shuffledConfig.rulebook.session heldAgain requests).1 =
        [.assigned false true, .removed (some pinnedStart), .assigned true true] := by
  obtain ⟨hverdicts, hsessions, hevictions⟩ :=
    sameRules_shuffledConfig.same_verdicts (by decide) (by decide) (.inl (reachable_held _))
      (.inr reachable_heldAgain) (s := held) (fun a => by
        rw [show held.starts = heldAgain.starts by decide +kernel])
  rw [← (hverdicts laterLesson isOf_laterLesson).1, ← (hsessions requests).1,
    ← hevictions (by decide) (by decide) laterLesson isOf_laterLesson]
  decide +kernel

end Timetable

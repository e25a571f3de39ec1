import Timetable.Rule.Kind
import Timetable.Proofs.Schedule

/-!
# What a rule has against a start

A rule answers a start with a list of objections, some to the run and some to its periods.  Two
things about the answer matter for what happens next: which scheduled starts it names
(`Rule.Names`), as these are taken out when the start is forced, and whether it finds no fault with
the start itself (`Rule.Permits`).  A rule accepts a start if it does so and names nobody.

For every rule there is a lemma that says whom it names in a coherent schedule.

* `names_duplicateSections_iff`: the start of the same section.
* `names_teacherConflict_iff` and `names_roomConflict_iff`: the starts of other sections that overlap
  the run and share a teacher or the room with it.
* The rules of equipment, of caps and of lunches name some of the starts of other sections.  The
  remaining rules name nobody.

In particular whoever is named by a rule is scheduled: `RuleKind.holds_of_names`.
-/

set_option autoImplicit false

namespace Timetable

namespace Objection

/-- The starts an objection names. -/
def clashes : Objection → List Start
  | .flaw _ => []
  | .clash starts _ => starts

/-- Whether an objection is to the candidate itself. -/
def isFlaw : Objection → Bool
  | .flaw _ => true
  | .clash _ _ => false

/-- The objection finds no fault and names nobody, so nothing follows from it. -/
def IsVoid (o : Objection) : Prop := o.isFlaw = false ∧ o.clashes = []

instance (o : Objection) : Decidable o.IsVoid := inferInstanceAs (Decidable (_ ∧ _))

theorem not_isVoid_flaw {text : String} : ¬ (flaw text).IsVoid := fun h => by cases h.1

theorem isVoid_clash_iff {starts : List Start} {text : String} :
    (clash starts text).IsVoid ↔ starts = [] := and_iff_right rfl

end Objection

namespace Rule

variable {p : Program} {r : Rule} {s : Schedule p} {c a : Start}

/-- All objections of a rule, those to the run first. -/
def objections (r : Rule) (s : Schedule p) (c : Start) : List Objection :=
  r.onStart s c ++ (c.presents p).flatMap (r.onPresent s)

/-- Some objection names the start `a`. -/
def Names (r : Rule) (s : Schedule p) (c a : Start) : Prop := ∃ o ∈ r.objections s c, a ∈ o.clashes

/-- No objection is to the candidate itself. -/
def Permits (r : Rule) (s : Schedule p) (c : Start) : Prop :=
  ∀ o ∈ r.objections s c, o.isFlaw = false

/-- Whoever the rule names is placed, as a clash is one with scheduled starts.  It is up to the rule
to see to this. -/
def NamesPlaced (r : Rule) (p : Program) : Prop :=
  ∀ (s : Schedule p) (c a : Start), s.Coherent → c.IsOf p → r.Names s c a → s.Holds a

/-- The rule finds no fault and names nobody. -/
def Accepts (r : Rule) (s : Schedule p) (c : Start) : Prop :=
  r.Permits s c ∧ ∀ a, ¬ r.Names s c a

theorem mem_objections_iff {o : Objection} :
    o ∈ r.objections s c ↔ o ∈ r.onStart s c ∨ ∃ m ∈ c.presents p, o ∈ r.onPresent s m := by
  rw [objections, List.mem_append, List.mem_flatMap]

theorem names_iff : r.Names s c a ↔ (∃ o ∈ r.onStart s c, a ∈ o.clashes) ∨
    ∃ m ∈ c.presents p, ∃ o ∈ r.onPresent s m, a ∈ o.clashes := by
  simp only [Names, mem_objections_iff]
  constructor
  · rintro ⟨o, ho | ⟨m, hm, ho⟩, ha⟩
    · exact .inl ⟨o, ho, ha⟩
    · exact .inr ⟨m, hm, o, ho, ha⟩
  · rintro (⟨o, ho, ha⟩ | ⟨m, hm, o, ho, ha⟩)
    · exact ⟨o, .inl ho, ha⟩
    · exact ⟨o, .inr ⟨m, hm, ho⟩, ha⟩

theorem permits_iff : r.Permits s c ↔ (∀ o ∈ r.onStart s c, o.isFlaw = false) ∧
    ∀ m ∈ c.presents p, ∀ o ∈ r.onPresent s m, o.isFlaw = false := by
  simp only [Permits, mem_objections_iff]
  constructor
  · intro h
    exact ⟨fun o ho => h o (.inl ho), fun m hm o ho => h o (.inr ⟨m, hm, ho⟩)⟩
  · rintro ⟨hstart, hpresent⟩ o (ho | ⟨m, hm, ho⟩)
    · exact hstart o ho
    · exact hpresent m hm o ho

/-- A start is accepted if nothing follows from any objection. -/
theorem accepts_iff_forall_isVoid : r.Accepts s c ↔ ∀ o ∈ r.objections s c, o.IsVoid := by
  simp only [Accepts, Permits, Names, Objection.IsVoid, List.eq_nil_iff_forall_not_mem]
  constructor
  · rintro ⟨hflaw, hnames⟩ o ho
    exact ⟨hflaw o ho, fun a ha => hnames a ⟨o, ho, ha⟩⟩
  · intro h
    exact ⟨fun o ho => (h o ho).1, fun a ⟨o, ho, ha⟩ => (h o ho).2 a ha⟩

instance : Decidable (r.Accepts s c) := decidable_of_iff _ accepts_iff_forall_isVoid.symm

theorem accepts_iff_isVoid : r.Accepts s c ↔ (∀ o ∈ r.onStart s c, o.IsVoid) ∧
    ∀ m ∈ c.presents p, ∀ o ∈ r.onPresent s m, o.IsVoid := by
  simp only [accepts_iff_forall_isVoid, mem_objections_iff]
  constructor
  · intro h
    exact ⟨fun o ho => h o (.inl ho), fun m hm o ho => h o (.inr ⟨m, hm, ho⟩)⟩
  · rintro ⟨hstart, hpresent⟩ o (ho | ⟨m, hm, ho⟩)
    · exact hstart o ho
    · exact hpresent m hm o ho

/-- For a rule that only looks at runs as a whole it is enough to look at these objections. -/
theorem accepts_iff_onStart (h : ∀ m, r.onPresent s m = []) :
    r.Accepts s c ↔ ∀ o ∈ r.onStart s c, o.IsVoid := by
  rw [accepts_iff_isVoid]
  refine and_iff_left fun m _ o ho => ?_
  rw [h m] at ho
  exact absurd ho List.not_mem_nil

theorem mem_require_iff {condition : Bool} {text : String} {o : Objection} :
    o ∈ require condition text ↔ condition = false ∧ o = .flaw text := by
  cases condition <;> simp [require]

theorem forall_mem_require_isVoid_iff {condition : Bool} {text : String} :
    (∀ o ∈ require condition text, o.IsVoid) ↔ condition = true := by
  cases condition <;> simp [require, Objection.not_isVoid_flaw]

/-- A rule that only finds faults names nobody. -/
theorem not_names_of_isFlaw (h : ∀ o ∈ r.objections s c, o.isFlaw = true) : ¬ r.Names s c a := by
  rintro ⟨o, ho, ha⟩
  cases o with
  | flaw text => exact absurd ha List.not_mem_nil
  | clash starts text => exact absurd (h _ ho) Bool.false_ne_true

/-! ## Who else is in session during a run -/

/-- The starts in session in some period of a run are those that overlap it. -/
theorem exists_mem_occurring_presents_iff (h : s.Coherent) (hc : c.IsOf p) :
    (∃ m ∈ c.presents p, ∃ o ∈ s.occurring m.slot, o.start = a) ↔ s.Holds a ∧ a.overlaps c := by
  simp only [h.exists_mem_occurring_iff]
  constructor
  · rintro ⟨m, hm, ha, hs⟩
    exact ⟨ha, ((h.isOf_of_holds ha).overlaps_iff hc).2
      ⟨m.slot, hs, Start.exists_mem_presents_iff.1 ⟨m, hm, rfl⟩⟩⟩
  · rintro ⟨ha, hac⟩
    obtain ⟨slot, hsa, hsc⟩ := ((h.isOf_of_holds ha).overlaps_iff hc).1 hac
    obtain ⟨m, hm, rfl⟩ := Start.exists_mem_presents_iff (p := p).2 hsc
    exact ⟨m, hm, ha, hsa⟩

theorem sectionId_of_mem_presents {m : Present} (hm : m ∈ c.presents p) :
    m.sectionId = c.sectionId := congrArg Start.sectionId (Start.start_of_mem_presents hm)

theorem roomId_of_mem_presents {m : Present} (hm : m ∈ c.presents p) : m.roomId = c.roomId :=
  congrArg Start.roomId (Start.start_of_mem_presents hm)

/-! ## Rules against double booking -/

theorem names_duplicateSections_iff :
    duplicateSections.Names s c a ↔ s.startOf? c.sectionId = some a := by
  simp [names_iff, duplicateSections, Objection.clashes]

theorem permits_duplicateSections : duplicateSections.Permits s c := by
  simp [permits_iff, duplicateSections, Objection.isFlaw]

/-- **Teachers are busy with the starts that overlap the run.** -/
theorem names_teacherConflict_iff (h : s.Coherent) (hc : c.IsOf p) :
    teacherConflict.Names s c a ↔ s.Holds a ∧ a.overlaps c ∧ a.sectionId ≠ c.sectionId ∧
      p.shareTeacher c.sectionId a.sectionId := by
  rw [← and_assoc, ← exists_mem_occurring_presents_iff h hc, names_iff]
  simp only [teacherConflict, List.not_mem_nil, false_and, exists_false, false_or,
    List.mem_singleton, exists_eq_left, Objection.clashes, List.mem_map, List.mem_filter,
    Bool.and_eq_true, decide_eq_true_eq]
  constructor
  · rintro ⟨m, hm, o, ⟨ho, hne, ht⟩, rfl⟩
    rw [sectionId_of_mem_presents hm] at hne ht
    exact ⟨⟨m, hm, o, ho, rfl⟩, hne, ht⟩
  · rintro ⟨⟨m, hm, o, ho, rfl⟩, hne, ht⟩
    rw [← sectionId_of_mem_presents hm] at hne ht
    exact ⟨m, hm, o, ⟨ho, hne, ht⟩, rfl⟩

theorem permits_teacherConflict : teacherConflict.Permits s c := by
  simp [permits_iff, teacherConflict, Objection.isFlaw]

/-- **A room is occupied by the starts in it that overlap the run.** -/
theorem names_roomConflict_iff (h : s.Coherent) (hc : c.IsOf p) :
    roomConflict.Names s c a ↔ s.Holds a ∧ a.overlaps c ∧ a.sectionId ≠ c.sectionId ∧
      a.roomId = c.roomId := by
  rw [← and_assoc, ← exists_mem_occurring_presents_iff h hc, names_iff]
  simp only [roomConflict, List.not_mem_nil, false_and, exists_false, false_or,
    List.mem_singleton, exists_eq_left, Objection.clashes, List.mem_map, List.mem_filter,
    decide_eq_true_eq, Option.mem_toList, h.occurringAt?_eq_some_iff, h.mem_occurring_iff]
  constructor
  · rintro ⟨m, hm, o, ⟨⟨ho, hr, hp⟩, hne⟩, rfl⟩
    rw [sectionId_of_mem_presents hm] at hne
    rw [roomId_of_mem_presents hm] at hr
    exact ⟨⟨m, hm, o, ⟨ho, hp⟩, rfl⟩, hne, hr⟩
  · rintro ⟨⟨m, hm, o, ⟨ho, hp⟩, rfl⟩, hne, hr⟩
    rw [← sectionId_of_mem_presents hm] at hne
    rw [← roomId_of_mem_presents hm] at hr
    exact ⟨m, hm, o, ⟨⟨ho, hr, hp⟩, hne⟩, rfl⟩

theorem permits_roomConflict : roomConflict.Permits s c := by
  simp [permits_iff, roomConflict, Objection.isFlaw]

/-! ## Rules that only find faults -/

theorem isFlaw_of_mem_require {condition : Bool} {text : String} {o : Objection}
    (ho : o ∈ require condition text) : o.isFlaw = true := by
  obtain ⟨-, rfl⟩ := mem_require_iff.1 ho
  rfl

theorem forall_mem_require_isFlaw_iff {condition : Bool} {text : String} :
    (∀ o ∈ require condition text, o.isFlaw = false) ↔ condition = true := by
  cases condition <;> simp [require, Objection.isFlaw]

theorem not_names_localConflict {minimum maximum : Float} :
    ¬ (localConflict minimum maximum).Names s c a := by
  refine not_names_of_isFlaw fun o ho => ?_
  rcases mem_objections_iff.1 ho with ho | ⟨m, -, ho⟩
  · exact (List.mem_append.1 ho).elim isFlaw_of_mem_require isFlaw_of_mem_require
  · exact (List.mem_append.1 ho).elim isFlaw_of_mem_require isFlaw_of_mem_require

/-- **The rule of size and availability is content with a room of the right size that is available,
as all teachers are, in every period of the run.** -/
theorem permits_localConflict_iff {minimum maximum : Float} :
    (localConflict minimum maximum).Permits s c ↔
      (ratio (p.room c.roomId).capacity (p.courseOf c.sectionId).maxSize ≥ minimum ∧
        ratio (p.room c.roomId).capacity (p.courseOf c.sectionId).estimatedSize ≤ maximum) ∧
      ∀ m ∈ c.presents p, m.periodId ∈ p.compatiblePeriods c.sectionId ∧
        m.periodId ∈ p.roomPeriods c.roomId := by
  rw [permits_iff]
  simp only [localConflict, List.forall_mem_append, forall_mem_require_isFlaw_iff,
    decide_eq_true_eq, List.contains_iff_mem, Present.sectionId, Present.roomId]
  refine and_congr_right fun _ => forall₂_congr fun m hm => ?_
  rw [Start.start_of_mem_presents hm]

/-- **The rule of properties is content with a room that has what is required and is reserved by
nothing else.** -/
theorem permits_roomProperties_iff : roomProperties.Permits s c ↔
    (p.courseOf c.sectionId).propertyIds ⊆ (p.room c.roomId).propertyIds ∧
      p.bindingProperties c.roomId ⊆ (p.courseOf c.sectionId).propertyIds := by
  rw [permits_iff]
  simp only [roomProperties, List.forall_mem_append, List.forall_mem_map, List.mem_filter,
    Objection.isFlaw, List.not_mem_nil, List.subset_def]
  simp

theorem not_names_roomProperties : ¬ roomProperties.Names s c a := by
  refine not_names_of_isFlaw fun o ho => ?_
  rcases mem_objections_iff.1 ho with ho | ⟨m, -, ho⟩
  · rcases List.mem_append.1 ho with ho | ho
    · obtain ⟨q, -, rfl⟩ := List.mem_map.1 ho
      rfl
    · obtain ⟨q, -, rfl⟩ := List.mem_map.1 ho
      rfl
  · exact absurd ho List.not_mem_nil

theorem not_names_prerequisites : ¬ prerequisites.Names s c a := by
  refine not_names_of_isFlaw fun o ho => ?_
  rcases mem_objections_iff.1 ho with ho | ⟨m, -, ho⟩
  · obtain ⟨course, -, ho⟩ := List.mem_flatMap.1 ho
    exact isFlaw_of_mem_require ho
  · exact absurd ho List.not_mem_nil

theorem not_names_gradeRange : ¬ gradeRange.Names s c a := by
  refine not_names_of_isFlaw fun o ho => ?_
  rcases mem_objections_iff.1 ho with ho | ⟨m, -, ho⟩
  · exact absurd ho List.not_mem_nil
  · simp only [gradeRange] at ho
    split at ho
    · exact isFlaw_of_mem_require ho
    · exact absurd ho List.not_mem_nil

theorem not_names_locked {pins : Pins} : ¬ (locked pins).Names s c a := by
  refine not_names_of_isFlaw fun o ho => ?_
  rcases mem_objections_iff.1 ho with ho | ⟨m, -, ho⟩
  · simp only [locked] at ho
    split at ho
    · exact absurd ho List.not_mem_nil
    · exact isFlaw_of_mem_require ho
  · simp only [locked] at ho
    split at ho
    · exact absurd ho List.not_mem_nil
    · obtain ⟨other, -, ho⟩ := List.mem_flatMap.1 ho
      exact isFlaw_of_mem_require ho

/-! ## Rules that choose who has to make way -/

theorem drawLots_perm {G α : Type} [RandomSource G] [Ord α] (rng : G) (xs : List α) :
    (drawLots rng xs).Perm xs :=
  (RandomSource.shuffle_perm _ _).trans (List.mergeSort_perm _ _)

theorem mem_borrowers_iff {m : Present} {q : ResourceId} : a ∈ borrowers s m q ↔
    ∃ o ∈ s.occurring m.slot, o.start = a ∧ a.sectionId ≠ m.sectionId ∧
      q ∈ borrowed p a.sectionId a.roomId := by
  simp only [borrowers, List.mem_map, List.mem_filter, Bool.and_eq_true, decide_eq_true_eq,
    List.contains_iff_mem]
  constructor
  · rintro ⟨o, ⟨ho, hne, hq⟩, rfl⟩
    exact ⟨o, ho, rfl, hne, hq⟩
  · rintro ⟨o, ho, rfl, hne, hq⟩
    exact ⟨o, ⟨ho, hne, hq⟩, rfl⟩

theorem exists_mem_poolObjections_iff {seed : UInt64} {m : Present} {q : ResourceId} :
    (∃ o ∈ poolObjections seed s m q, a ∈ o.clashes) ↔
      (p.resource q).floating ≠ 0 ∧ (p.resource q).floating ≤ (borrowers s m q).length ∧
        a ∈ (drawLots (lot seed m q.val) (borrowers s m q)).take
          ((borrowers s m q).length + 1 - (p.resource q).floating) := by
  simp only [poolObjections]
  split
  · next hleft => simp [Nat.not_le.2 hleft]
  · next hfull =>
    split
    · next hnone => simp [hnone, Objection.clashes]
    · next hsome => simp [hsome, Nat.le_of_not_lt hfull, Objection.clashes]

theorem forall_mem_poolObjections_isFlaw_iff {seed : UInt64} {m : Present} {q : ResourceId} :
    (∀ o ∈ poolObjections seed s m q, o.isFlaw = false) ↔ (p.resource q).floating ≠ 0 := by
  simp only [poolObjections]
  split
  · next hleft => simp [Nat.ne_of_gt (Nat.lt_of_le_of_lt (Nat.zero_le _) hleft)]
  · split
    · next hnone => simp [hnone, Objection.isFlaw]
    · next hsome => simp [hsome, Objection.isFlaw]

/-- A fault is found with a reserved room, and with the lack of something that is not lent. -/
theorem permits_resources_iff {seed : UInt64} : (resources seed).Permits s c ↔
    (∀ q ∈ p.bindingResources c.roomId, q ∈ (p.courseOf c.sectionId).resourceIds) ∧
      ∀ m ∈ c.presents p, ∀ q ∈ borrowed p m.sectionId m.roomId, (p.resource q).floating ≠ 0 := by
  rw [permits_iff]
  refine and_congr ?_ (forall_congr' fun m => forall_congr' fun _ => ?_)
  · constructor
    · intro h q hq
      by_contra hnot
      have hunwanted : q ∈ (p.bindingResources c.roomId).filter
          (!(p.courseOf c.sectionId).resourceIds.contains ·) :=
        List.mem_filter.2 ⟨hq, by simpa using hnot⟩
      exact Bool.noConfusion (h _ (List.mem_map_of_mem hunwanted))
    · intro h o ho
      obtain ⟨q, hq, -⟩ := List.mem_map.1 ho
      obtain ⟨hq, hnot⟩ := List.mem_filter.1 hq
      exact absurd (h q hq) (by simpa using hnot)
  · constructor
    · intro h q hq
      exact forall_mem_poolObjections_isFlaw_iff.1 fun o ho => h o (List.mem_flatMap.2 ⟨q, hq, ho⟩)
    · intro h o ho
      obtain ⟨q, hq, ho⟩ := List.mem_flatMap.1 ho
      exact forall_mem_poolObjections_isFlaw_iff.2 (h q hq) o ho

/-- Borrowers are named by lot where all units of a pool are in use. -/
theorem names_resources_iff {seed : UInt64} : (resources seed).Names s c a ↔
    ∃ m ∈ c.presents p, ∃ q ∈ borrowed p c.sectionId c.roomId,
      (p.resource q).floating ≠ 0 ∧ (p.resource q).floating ≤ (borrowers s m q).length ∧
      a ∈ (drawLots (lot seed m q.val) (borrowers s m q)).take
        ((borrowers s m q).length + 1 - (p.resource q).floating) := by
  simp only [← @exists_mem_poolObjections_iff p s a seed]
  rw [names_iff]
  constructor
  · rintro (⟨o, ho, ha⟩ | ⟨m, hm, o, ho, ha⟩)
    · obtain ⟨q, -, rfl⟩ := List.mem_map.1 ho
      exact absurd ha List.not_mem_nil
    · obtain ⟨q, hq, ho⟩ := List.mem_flatMap.1 ho
      rw [sectionId_of_mem_presents hm, roomId_of_mem_presents hm] at hq
      exact ⟨m, hm, q, hq, o, ho, ha⟩
  · rintro ⟨m, hm, q, hq, o, ho, ha⟩
    rw [← sectionId_of_mem_presents hm, ← roomId_of_mem_presents hm] at hq
    exact .inr ⟨m, hm, o, List.mem_flatMap.2 ⟨q, hq, ho⟩, ha⟩

/-- Borrowers that are named are scheduled at a time of the run. -/
theorem overlaps_of_names_resources (h : s.Coherent) (hc : c.IsOf p) {seed : UInt64}
    (ha : (resources seed).Names s c a) : s.Holds a ∧ a.overlaps c := by
  obtain ⟨m, hm, q, -, -, -, ha⟩ := names_resources_iff.1 ha
  have hmem := (drawLots_perm _ _).mem_iff.1 (List.mem_of_mem_take ha)
  obtain ⟨o, ho, he, -⟩ := mem_borrowers_iff.1 hmem
  exact (exists_mem_occurring_presents_iff h hc).1 ⟨m, hm, o, ho, he⟩

/-- The starts of other sections in session that teach for a group, with the number of teachers of
the group that each takes. -/
def groupStarts (s : Schedule p) (m : Present) (g : TeacherGroup) : List (Start × Nat) :=
  (((s.occurring m.slot).filter (·.sectionId ≠ m.sectionId)).map fun o =>
    (o.start, members p g o.sectionId)).filter (·.2 > 0)

/-- The number of teachers of a group that would be teaching in a period of a run. -/
def groupLoad (s : Schedule p) (m : Present) (g : TeacherGroup) : Nat :=
  members p g m.sectionId + total ((groupStarts s m g).map (·.2))

theorem capObjections_eq (seed : UInt64) (s : Schedule p) (m : Present) (id : GroupId) :
    capObjections seed s m id =
      let g := p.group id
      let own := members p g m.sectionId
      let others := groupStarts s m g
      let load := groupLoad s m g
      if own > g.cap then [.flaw s!"{m.sectionId} alone exceeds the cap of {g.name}"]
      else if load ≤ g.cap then []
      else
        [.clash (shed g.cap load (drawLots (lot seed m id.val) others).reverse)
          s!"{g.name} would exceed its cap of {g.cap} at {m.periodId}"] := rfl

theorem exists_mem_of_mem_shed {cap load : Nat} {l : List (Start × Nat)}
    (ha : a ∈ shed cap load l) : ∃ n, (a, n) ∈ l := by
  induction l generalizing load with
  | nil => exact absurd ha List.not_mem_nil
  | cons e l ih =>
    obtain ⟨b, n⟩ := e
    rw [shed] at ha
    split at ha
    · exact absurd ha List.not_mem_nil
    · rcases List.mem_cons.1 ha with rfl | ha
      · exact ⟨n, List.mem_cons_self⟩
      · obtain ⟨k, hk⟩ := ih ha
        exact ⟨k, List.mem_cons_of_mem _ hk⟩

theorem exists_mem_occurring_of_mem_groupStarts {m : Present} {g : TeacherGroup} {n : Nat}
    (ha : (a, n) ∈ groupStarts s m g) :
    ∃ o ∈ s.occurring m.slot, o.start = a ∧ a.sectionId ≠ m.sectionId := by
  obtain ⟨o, ho, he⟩ := List.mem_map.1 (List.mem_filter.1 ha).1
  obtain ⟨ho, hne⟩ := List.mem_filter.1 ho
  cases he
  exact ⟨o, ho, rfl, of_decide_eq_true hne⟩

theorem exists_mem_capObjections_iff {seed : UInt64} {m : Present} {id : GroupId} :
    (∃ o ∈ capObjections seed s m id, a ∈ o.clashes) ↔
      members p (p.group id) m.sectionId ≤ (p.group id).cap ∧
        (p.group id).cap < groupLoad s m (p.group id) ∧
        a ∈ shed (p.group id).cap (groupLoad s m (p.group id))
          (drawLots (lot seed m id.val) (groupStarts s m (p.group id))).reverse := by
  simp only [capObjections_eq]
  split
  · next hown => simp [Nat.not_le.2 hown, Objection.clashes]
  · next hown =>
    split
    · next hload => simp [Nat.not_lt.2 hload]
    · next hload => simp [Nat.le_of_not_gt hown, Nat.lt_of_not_le hload, Objection.clashes]

theorem forall_mem_capObjections_isFlaw_iff {seed : UInt64} {m : Present} {id : GroupId} :
    (∀ o ∈ capObjections seed s m id, o.isFlaw = false) ↔
      members p (p.group id) m.sectionId ≤ (p.group id).cap := by
  simp only [capObjections_eq]
  split
  · next hown => simp [Nat.not_le.2 hown, Objection.isFlaw]
  · next hown =>
    split
    · simp [Nat.le_of_not_gt hown]
    · simp [Nat.le_of_not_gt hown, Objection.isFlaw]

/-- A fault is found with a section that is above a cap by itself. -/
theorem permits_teacherGroupCap_iff {seed : UInt64} : (teacherGroupCap seed).Permits s c ↔
    ∀ m ∈ c.presents p, ∀ id ∈ distinct ((p.teachersOf m.sectionId).flatMap p.groupsOf),
      members p (p.group id) m.sectionId ≤ (p.group id).cap := by
  have hnone : ∀ o ∈ (teacherGroupCap seed).onStart s c, o.isFlaw = false := fun o ho =>
    absurd ho List.not_mem_nil
  rw [permits_iff, and_iff_right hnone]
  refine forall_congr' fun m => forall_congr' fun _ => ?_
  constructor
  · intro h id hid
    exact forall_mem_capObjections_isFlaw_iff.1 fun o ho => h o (List.mem_flatMap.2 ⟨id, hid, ho⟩)
  · intro h o ho
    obtain ⟨id, hid, ho⟩ := List.mem_flatMap.1 ho
    exact forall_mem_capObjections_isFlaw_iff.2 (h id hid) o ho

/-- Where a group would teach too much, some of those who teach for it are named by lot. -/
theorem names_teacherGroupCap_iff {seed : UInt64} : (teacherGroupCap seed).Names s c a ↔
    ∃ m ∈ c.presents p, ∃ t ∈ p.teachersOf c.sectionId, ∃ id ∈ p.groupsOf t,
      members p (p.group id) m.sectionId ≤ (p.group id).cap ∧
        (p.group id).cap < groupLoad s m (p.group id) ∧
        a ∈ shed (p.group id).cap (groupLoad s m (p.group id))
          (drawLots (lot seed m id.val) (groupStarts s m (p.group id))).reverse := by
  simp only [← @exists_mem_capObjections_iff p s a seed]
  rw [names_iff]
  constructor
  · rintro (⟨o, ho, -⟩ | ⟨m, hm, o, ho, ha⟩)
    · exact absurd ho List.not_mem_nil
    · obtain ⟨id, hid, ho⟩ := List.mem_flatMap.1 ho
      obtain ⟨t, ht, hid⟩ := List.mem_flatMap.1 (mem_distinct.1 hid)
      rw [sectionId_of_mem_presents hm] at ht
      exact ⟨m, hm, t, ht, id, hid, o, ho, ha⟩
  · rintro ⟨m, hm, t, ht, id, hid, o, ho, ha⟩
    rw [← sectionId_of_mem_presents hm] at ht
    have hmem := mem_distinct.2 (List.mem_flatMap.2 ⟨t, ht, hid⟩)
    exact .inr ⟨m, hm, o, List.mem_flatMap.2 ⟨id, hmem, ho⟩, ha⟩

/-- Those who are named on account of a cap are scheduled at a time of the run. -/
theorem overlaps_of_names_teacherGroupCap (h : s.Coherent) (hc : c.IsOf p) {seed : UInt64}
    (ha : (teacherGroupCap seed).Names s c a) : s.Holds a ∧ a.overlaps c := by
  obtain ⟨m, hm, t, -, id, -, -, -, ha⟩ := names_teacherGroupCap_iff.1 ha
  obtain ⟨n, hn⟩ := exists_mem_of_mem_shed ha
  have hmem := (drawLots_perm _ _).mem_iff.1 (List.mem_reverse.1 hn)
  obtain ⟨o, ho, he, -⟩ := exists_mem_occurring_of_mem_groupStarts hmem
  exact (exists_mem_occurring_presents_iff h hc).1 ⟨m, hm, o, ho, he⟩

/-- The starts of a teacher's sections in the block of a run, the run's own section left out. -/
def startsBeside (s : Schedule p) (c : Start) (teacher : TeacherId) : List Start :=
  ((p.sectionsOfTeacher teacher).filter (· ≠ c.sectionId)).filterMap fun id =>
    (s.startOf? id).filter (·.slot.blockId = c.slot.blockId)

theorem mem_startsBeside_iff {t : TeacherId} : a ∈ startsBeside s c t ↔ ∃ id,
    id ∈ p.sectionsOfTeacher t ∧ id ≠ c.sectionId ∧ s.startOf? id = some a ∧
      a.slot.blockId = c.slot.blockId := by
  simp only [startsBeside, List.mem_filterMap, List.mem_filter, decide_eq_true_eq,
    Option.filter_eq_some_iff, and_assoc]

/-- The lunch slots of a block. -/
def lunchSlots (p : Program) (block : BlockId) : List Slot := (p.lunchPeriods block).map (·.slot)

/-- The lunch slots of its block that a run leaves free. -/
def freeLunches (p : Program) (c : Start) : List Slot :=
  (lunchSlots p c.slot.blockId).filter fun l => !c.covers l

theorem onStart_lunch (s : Schedule p) (c : Start) : lunch.onStart s c =
    if !(lunchSlots p c.slot.blockId).any c.covers || (p.teachersOf c.sectionId).isEmpty then []
    else if (freeLunches p c).isEmpty then
      [.flaw s!"{c.sectionId} covers every lunch period of its block"]
    else (p.teachersOf c.sectionId).flatMap (lunchObjections s c (freeLunches p c)) := rfl

theorem lunchObjections_eq (s : Schedule p) (c : Start) (free : List Slot) (t : TeacherId) :
    lunchObjections s c free t =
      if free.all fun l => (startsBeside s c t).any (·.covers l) then
        [.clash ((startsBeside s c t).filter fun a => free.any a.covers)
          s!"{(p.teacher t).name} would have no lunch"]
      else [] := rfl

theorem exists_mem_lunchObjections_iff {free : List Slot} {t : TeacherId} :
    (∃ o ∈ lunchObjections s c free t, a ∈ o.clashes) ↔
      (∀ l ∈ free, ∃ b ∈ startsBeside s c t, b.covers l) ∧
        a ∈ startsBeside s c t ∧ ∃ l ∈ free, a.covers l := by
  rw [lunchObjections_eq]
  split
  · next hall =>
    simp only [List.all_eq_true, List.any_eq_true] at hall
    constructor
    · rintro ⟨o, ho, ha⟩
      cases List.mem_singleton.1 ho
      obtain ⟨ha, hal⟩ := List.mem_filter.1 ha
      exact ⟨hall, ha, List.any_eq_true.1 hal⟩
    · rintro ⟨-, ha, hal⟩
      exact ⟨_, List.mem_singleton.2 rfl, List.mem_filter.2 ⟨ha, List.any_eq_true.2 hal⟩⟩
  · next hall =>
    simp only [List.all_eq_true, List.any_eq_true] at hall
    simp only [List.not_mem_nil, false_and, exists_false, hall]

/-- A teacher who would be left without a lunch names what they teach at that time. -/
theorem names_lunch_iff : lunch.Names s c a ↔
    (∃ l ∈ lunchSlots p c.slot.blockId, c.covers l) ∧ ∃ t ∈ p.teachersOf c.sectionId,
      (∀ l ∈ freeLunches p c, ∃ b ∈ startsBeside s c t, b.covers l) ∧
      a ∈ startsBeside s c t ∧ ∃ l ∈ freeLunches p c, a.covers l := by
  simp only [← exists_mem_lunchObjections_iff]
  rw [names_iff, onStart_lunch]
  constructor
  · rintro (⟨o, ho, ha⟩ | ⟨m, -, o, ho, -⟩)
    · split at ho
      · exact absurd ho List.not_mem_nil
      · next hcover =>
        simp only [Bool.or_eq_true, not_or, Bool.not_eq_true', Bool.not_eq_false, List.any_eq_true]
          at hcover
        split at ho
        · cases List.mem_singleton.1 ho
          exact absurd ha List.not_mem_nil
        · obtain ⟨t, ht, ho⟩ := List.mem_flatMap.1 ho
          exact ⟨hcover.1, t, ht, o, ho, ha⟩
    · exact absurd ho List.not_mem_nil
  · rintro ⟨hcover, t, ht, o, ho, ha⟩
    obtain ⟨-, -, l, hl, -⟩ := exists_mem_lunchObjections_iff.1 ⟨o, ho, ha⟩
    rw [List.any_eq_true.2 hcover, List.isEmpty_eq_false_iff_exists_mem.2 ⟨t, ht⟩,
      List.isEmpty_eq_false_iff_exists_mem.2 ⟨l, hl⟩]
    exact .inl ⟨o, List.mem_flatMap.2 ⟨t, ht, ho⟩, ha⟩

end Rule

/-! ## All rules -/

namespace RuleKind

variable {p : Program} {s : Schedule p} {c a : Start}
  {bounds : SizeBounds} {pins : Pins} {seed : UInt64} {kind : RuleKind}

/-- **Whoever is named is scheduled.** -/
theorem holds_of_names (h : s.Coherent) (hc : c.IsOf p)
    (ha : (kind.rule bounds pins seed).Names s c a) : s.Holds a := by
  cases kind with
  | duplicateSections => exact h.holds_of_startOf? (Rule.names_duplicateSections_iff.1 ha)
  | teacherConflict => exact ((Rule.names_teacherConflict_iff h hc).1 ha).1
  | localConflict => exact absurd ha Rule.not_names_localConflict
  | roomConflict => exact ((Rule.names_roomConflict_iff h hc).1 ha).1
  | roomProperties => exact absurd ha Rule.not_names_roomProperties
  | resources => exact (Rule.overlaps_of_names_resources h hc ha).1
  | prerequisites => exact absurd ha Rule.not_names_prerequisites
  | gradeRange => exact absurd ha Rule.not_names_gradeRange
  | teacherGroupCap => exact (Rule.overlaps_of_names_teacherGroupCap h hc ha).1
  | lunch =>
    obtain ⟨-, t, -, -, ha, -⟩ := Rule.names_lunch_iff.1 ha
    obtain ⟨id, -, -, ha, -⟩ := Rule.mem_startsBeside_iff.1 ha
    exact h.holds_of_startOf? ha
  | locked => exact absurd ha Rule.not_names_locked

/-- Lots decide whom a rule names, never whether it finds a fault. -/
theorem permits_of_seed (seed' : UInt64) (h : (kind.rule bounds pins seed).Permits s c) :
    (kind.rule bounds pins seed').Permits s c := by
  cases kind with
  | resources => exact Rule.permits_resources_iff.2 (Rule.permits_resources_iff.1 h)
  | teacherGroupCap =>
    exact Rule.permits_teacherGroupCap_iff.2 (Rule.permits_teacherGroupCap_iff.1 h)
  | _ => exact h

end RuleKind

end Timetable

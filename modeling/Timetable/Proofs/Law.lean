import Mathlib.Algebra.Order.BigOperators.Group.List
import Mathlib.Algebra.Order.Group.Nat
import Mathlib.Data.List.Perm.Subperm
import Timetable.Proofs.Rule

/-!
# What a rule demands of all starts together

A rule looks at one start at a time, at the moment it is placed, and at the schedule as it is then.
Most rules nevertheless enforce something that does not depend on the order of events.  A *law* of a
rule (`Rule.HasLaw`) is a property of lists of starts that is kept when starts are left out, and that
tells whether the rule accepts a start: it does so exactly if the law holds with the start added.

* Rules that do not look at the schedule demand something of every start by itself:
  `hasLaw_of_static`.
* Rules against double booking demand something of every two starts: `hasLaw_of_pairwise`,
  `hasLaw_of_overlap`.
* `hasLaw_resources`: at no slot are more units of a resource borrowed than there are.
* `hasLaw_teacherGroupCap`: at no slot do more teachers of a group teach than its cap allows.
* `hasLaw_lunch`: whoever teaches in a lunch period of a block has another one of it free.

Only the rule of prerequisites has no law: leaving out a start may take away what another one needs.
`RuleKind.exists_hasLaw` collects the others.
-/

set_option autoImplicit false

namespace Timetable

namespace Rule

variable {p : Program} {r : Rule} {s t : Schedule p} {c a : Start}

/-- A property of lists of starts that a rule enforces, whatever the order they are placed in. -/
structure HasLaw (r : Rule) (p : Program) (P : List Start → Prop) : Prop where
  nil : P []
  mono : ∀ {l m : List Start}, l.Subperm m → P m → P l
  accepts_iff : ∀ {s : Schedule p} {c : Start}, s.Coherent → c.IsOf p →
    s.startOf? c.sectionId = none → P s.starts → (r.Accepts s c ↔ P (c :: s.starts))

/-! ## Rules that do not look at the schedule -/

theorem accepts_congr (h : r.objections s c = r.objections t c) :
    r.Accepts s c ↔ r.Accepts t c := by
  rw [Accepts, Accepts, Permits, Permits, h]
  exact and_congr_right fun _ => forall_congr' fun a => by rw [Names, Names, h]

/-- **A rule that does not look at the schedule judges every start by itself.** -/
theorem hasLaw_of_static
    (h : ∀ (s : Schedule p) (c : Start), r.objections s c = r.objections (.empty p) c) :
    r.HasLaw p fun l => ∀ c ∈ l, r.Accepts (.empty p) c where
  nil c hc := absurd hc List.not_mem_nil
  mono hlm hm c hc := hm c (hlm.subset hc)
  accepts_iff {s c} _ _ _ hP := by
    rw [accepts_congr (h s c), List.forall_mem_cons, and_iff_left hP]

/-! ## Rules about two starts -/

/-- **A rule that has something against pairs of starts.** -/
theorem hasLaw_of_pairwise {R : Start → Start → Prop} (hsymm : ∀ {a b}, R a b → R b a)
    (h : ∀ {s : Schedule p} {c : Start}, s.Coherent → c.IsOf p → s.startOf? c.sectionId = none →
      (r.Accepts s c ↔ ∀ a, s.Holds a → R c a)) : r.HasLaw p (List.Pairwise R) where
  nil := List.Pairwise.nil
  mono {l m} hlm hm := by
    obtain ⟨l', hperm, hsub⟩ := hlm
    exact (hperm.pairwise_iff hsymm).1 (hm.sublist hsub)
  accepts_iff {s c} hs hc hfresh hP := by
    rw [h hs hc hfresh, List.pairwise_cons, and_iff_left hP]
    simp only [hs.mem_starts_iff]

theorem hasLaw_duplicateSections :
    duplicateSections.HasLaw p (List.Pairwise fun a b => a.sectionId ≠ b.sectionId) := by
  refine hasLaw_of_pairwise Ne.symm fun {s c} _ _ hfresh => ?_
  constructor
  · exact fun _ a ha => (ha.sectionId_ne hfresh).symm
  · refine fun _ => ⟨permits_duplicateSections, fun a ha => ?_⟩
    rw [names_duplicateSections_iff, hfresh] at ha
    cases ha

/-- **A rule that names the starts which overlap the run and are related to it.** -/
theorem hasLaw_of_overlap {R : Start → Start → Prop} (hsymm : ∀ {a b}, R a b → R b a)
    (hpermits : ∀ {s : Schedule p} {c : Start}, r.Permits s c)
    (hnames : ∀ {s : Schedule p} {c a : Start}, s.Coherent → c.IsOf p → (r.Names s c a ↔
      s.Holds a ∧ a.overlaps c ∧ a.sectionId ≠ c.sectionId ∧ R c a)) :
    r.HasLaw p (List.Pairwise fun a b => R a b → ¬ a.overlaps b) := by
  refine hasLaw_of_pairwise (fun {a b} hab hR hba => ?_) fun {s c} hs hc hfresh => ?_
  · exact hab (hsymm hR) (Start.overlaps_comm.1 hba)
  · constructor
    · intro hacc a ha hR hca
      exact hacc.2 a ((hnames hs hc).2
        ⟨ha, Start.overlaps_comm.1 hca, ha.sectionId_ne hfresh, hR⟩)
    · intro h
      refine ⟨hpermits, fun a ha => ?_⟩
      obtain ⟨ha, hac, -, hR⟩ := (hnames hs hc).1 ha
      exact h a ha hR (Start.overlaps_comm.1 hac)

theorem hasLaw_teacherConflict : teacherConflict.HasLaw p
    (List.Pairwise fun a b => p.shareTeacher a.sectionId b.sectionId → ¬ a.overlaps b) :=
  hasLaw_of_overlap (p.shareTeacher_comm _ _).1 permits_teacherConflict names_teacherConflict_iff

theorem hasLaw_roomConflict : roomConflict.HasLaw p
    (List.Pairwise fun a b => b.roomId = a.roomId → ¬ a.overlaps b) :=
  hasLaw_of_overlap Eq.symm permits_roomConflict names_roomConflict_iff

/-! ## Equipment -/

/-- The number of units of a resource that are lent at a slot to some starts. -/
def unitsLent (p : Program) (l : List Start) (slot : Slot) (q : ResourceId) : Nat :=
  l.countP fun a => a.covers slot && (borrowed p a.sectionId a.roomId).contains q

theorem unitsLent_cons (l : List Start) (slot : Slot) (q : ResourceId) :
    unitsLent p (c :: l) slot q = unitsLent p l slot q +
      if c.covers slot ∧ q ∈ borrowed p c.sectionId c.roomId then 1 else 0 := by
  simp only [unitsLent, List.countP_cons, Bool.and_eq_true, List.contains_iff_mem]

/-- The borrowers beside a section that is not placed are all there are. -/
theorem length_borrowers (h : s.Coherent) {m : Present} (hfresh : s.startOf? m.sectionId = none)
    (q : ResourceId) : (borrowers s m q).length = unitsLent p s.starts m.slot q := by
  let lent (a : Start) : Bool :=
    a.sectionId ≠ m.sectionId && (borrowed p a.sectionId a.roomId).contains q
  have hborrowers : borrowers s m q = ((s.occurring m.slot).map (·.start)).filter lent := by
    rw [List.filter_map]
    rfl
  rw [hborrowers, ((h.occurring_perm m.slot).filter lent).length_eq, unitsLent,
    List.countP_eq_length_filter, List.filter_filter]
  refine congrArg List.length (List.filter_congr fun a ha => ?_)
  have hne := (h.mem_starts_iff.1 ha).sectionId_ne hfresh
  simp only [lent, decide_eq_true hne, Bool.true_and, Bool.and_comm]

/-- **One more borrower is not too many if a unit is left in every period of its run.** -/
theorem unitsLent_cons_le (hs : s.Coherent) (hfresh : s.startOf? c.sectionId = none)
    {q : ResourceId} {units : Nat} (hle : ∀ slot, unitsLent p s.starts slot q ≤ units)
    (hleft : q ∈ borrowed p c.sectionId c.roomId →
      ∀ m ∈ c.presents p, (borrowers s m q).length < units) (slot : Slot) :
    unitsLent p (c :: s.starts) slot q ≤ units := by
  rw [unitsLent_cons]
  split
  · next hcq =>
    obtain ⟨m, hm, rfl⟩ := Start.exists_mem_presents_iff (p := p).2 hcq.1
    have hlt := hleft hcq.2 m hm
    rwa [length_borrowers hs (by rwa [sectionId_of_mem_presents hm])] at hlt
  · exact hle slot

theorem forall_mem_poolObjections_isVoid_iff {seed : UInt64} {m : Present} {q : ResourceId} :
    (∀ o ∈ poolObjections seed s m q, o.IsVoid) ↔
      (borrowers s m q).length < (p.resource q).floating := by
  simp only [poolObjections]
  split
  · next hleft => simp [hleft]
  · next hfull =>
    refine ⟨fun h => ?_, fun h => absurd h hfull⟩
    split at h
    · exact absurd (h _ List.mem_cons_self) Objection.not_isVoid_flaw
    · next hunits =>
      -- the lot names at least one of the borrowers, of which there are at least as many as units
      have hnil := Objection.isVoid_clash_iff.1 (h _ List.mem_cons_self)
      have hlength := congrArg List.length hnil
      rw [List.length_take, (drawLots_perm _ _).length_eq, List.length_nil] at hlength
      omega

theorem accepts_resources_iff {seed : UInt64} : (resources seed).Accepts s c ↔
    (∀ q ∈ p.bindingResources c.roomId, q ∈ (p.courseOf c.sectionId).resourceIds) ∧
      ∀ m ∈ c.presents p, ∀ q ∈ borrowed p c.sectionId c.roomId,
        (borrowers s m q).length < (p.resource q).floating := by
  rw [accepts_iff_isVoid]
  refine and_congr ?_ (forall_congr' fun m => forall_congr' fun hm => ?_)
  · constructor
    · intro h q hq
      by_contra hn
      have hmem : q ∈ (p.bindingResources c.roomId).filter fun r =>
          !(p.courseOf c.sectionId).resourceIds.contains r :=
        List.mem_filter.2 ⟨hq, by simpa using hn⟩
      exact Objection.not_isVoid_flaw (h _ (List.mem_map_of_mem hmem))
    · intro h o ho
      obtain ⟨q, hq, -⟩ := List.mem_map.1 ho
      obtain ⟨hq, hn⟩ := List.mem_filter.1 hq
      exact absurd (h q hq) (by simpa using hn)
  · simp only [← @forall_mem_poolObjections_isVoid_iff p s seed, resources, List.mem_flatMap,
      sectionId_of_mem_presents hm, roomId_of_mem_presents hm]
    exact ⟨fun h q hq o ho => h o ⟨q, hq, ho⟩, fun h o ⟨q, hq, ho⟩ => h q hq o ho⟩

/-- **At no slot are more units lent than there are, and no room is misused.** -/
theorem hasLaw_resources {seed : UInt64} : (resources seed).HasLaw p fun l =>
    (∀ c ∈ l, ∀ q ∈ p.bindingResources c.roomId, q ∈ (p.courseOf c.sectionId).resourceIds) ∧
      ∀ slot q, unitsLent p l slot q ≤ (p.resource q).floating where
  nil := ⟨fun c hc => absurd hc List.not_mem_nil, fun slot q => Nat.zero_le _⟩
  mono hlm hm := ⟨fun c hc => hm.1 c (hlm.subset hc),
    fun slot q => Nat.le_trans (hlm.countP_le _) (hm.2 slot q)⟩
  accepts_iff {s c} hs hc hfresh hP := by
    rw [accepts_resources_iff, List.forall_mem_cons, and_iff_left hP.1]
    refine and_congr_right fun _ => ?_
    constructor
    · exact fun h slot q => unitsLent_cons_le hs hfresh (fun slot => hP.2 slot q)
        (fun hq m hm => h m hm q hq) slot
    · intro h m hm q hq
      have hle := h m.slot q
      rw [unitsLent_cons, if_pos ⟨Start.exists_mem_presents_iff.1 ⟨m, hm, rfl⟩, hq⟩] at hle
      rwa [length_borrowers hs (by rwa [sectionId_of_mem_presents hm])]

/-! ## Caps of teacher groups -/

/-- The number of teachers of a group that teach at a slot by some starts. -/
def groupTeaching (p : Program) (l : List Start) (slot : Slot) (g : TeacherGroup) : Nat :=
  total ((l.filter (·.covers slot)).map fun a => members p g a.sectionId)

theorem groupTeaching_cons (l : List Start) (slot : Slot) (g : TeacherGroup) :
    groupTeaching p (c :: l) slot g =
      (if c.covers slot then members p g c.sectionId else 0) + groupTeaching p l slot g := by
  rw [groupTeaching, List.filter_cons]
  split
  · rw [List.map_cons, total_cons, groupTeaching]
  · rw [Nat.zero_add, groupTeaching]

theorem total_map_le_of_subperm {α : Type} {l m : List α} (h : l.Subperm m) (f : α → Nat) :
    total (l.map f) ≤ total (m.map f) := by
  obtain ⟨l', hperm, hsub⟩ := h
  rw [← total_eq_of_perm (hperm.map f)]
  exact (hsub.map f).sum_le_sum fun _ _ => Nat.zero_le _

theorem groupTeaching_mono {l m : List Start} (h : l.Subperm m) (slot : Slot) (g : TeacherGroup) :
    groupTeaching p l slot g ≤ groupTeaching p m slot g :=
  total_map_le_of_subperm (h.filter _) _

theorem total_filter_pos {α : Type} (l : List (α × Nat)) :
    total ((l.filter (·.2 > 0)).map (·.2)) = total (l.map (·.2)) := by
  induction l with
  | nil => rfl
  | cons e l ih =>
    by_cases he : e.2 > 0
    · rw [List.filter_cons_of_pos (by simpa using he), List.map_cons, List.map_cons, total_cons,
        total_cons, ih]
    · rw [List.filter_cons_of_neg (by simpa using he), List.map_cons, total_cons, ih]
      omega

/-- The load a rule works out for a section that is not placed is that of the section and of all who
teach for the group already. -/
theorem groupLoad_eq (h : s.Coherent) {m : Present} (hfresh : s.startOf? m.sectionId = none)
    (g : TeacherGroup) :
    groupLoad s m g = members p g m.sectionId + groupTeaching p s.starts m.slot g := by
  have hall : (s.occurring m.slot).filter (·.sectionId ≠ m.sectionId) = s.occurring m.slot := by
    refine List.filter_eq_self.2 fun o ho => decide_eq_true ?_
    exact (h.mem_occurring_iff.1 ho).1.sectionId_ne hfresh
  rw [groupLoad, groupStarts, total_filter_pos, hall, List.map_map, groupTeaching,
    ← total_eq_of_perm ((h.occurring_perm m.slot).map _), List.map_map]
  rfl

theorem shed_eq_nil_iff {cap load : Nat} {l : List (Start × Nat)} (hload : cap < load) :
    shed cap load l = [] ↔ l = [] := by
  cases l with
  | nil => simp [shed]
  | cons e l => simp [shed, Nat.not_le.2 hload]

theorem forall_mem_capObjections_isVoid_iff {seed : UInt64} {m : Present} {id : GroupId} :
    (∀ o ∈ capObjections seed s m id, o.IsVoid) ↔
      groupLoad s m (p.group id) ≤ (p.group id).cap := by
  simp only [capObjections_eq]
  split
  · next hown =>
    refine ⟨fun h => absurd (h _ List.mem_cons_self) Objection.not_isVoid_flaw, fun h => ?_⟩
    rw [groupLoad] at h
    omega
  · next hown =>
    split
    · next hload => simp [hload]
    · next hload =>
      refine ⟨fun h => ?_, fun h => absurd h hload⟩
      -- the section alone is within the cap, so there is someone else who can be named
      have hnil := Objection.isVoid_clash_iff.1 (h _ List.mem_cons_self)
      rw [shed_eq_nil_iff (Nat.lt_of_not_le hload), List.reverse_eq_nil_iff] at hnil
      have hothers : groupStarts s m (p.group id) = [] :=
        List.perm_nil.1 (hnil ▸ (drawLots_perm (lot seed m id.val) _).symm)
      rw [groupLoad, hothers, List.map_nil, total_nil] at hload ⊢
      omega

theorem accepts_teacherGroupCap_iff {seed : UInt64} : (teacherGroupCap seed).Accepts s c ↔
    ∀ m ∈ c.presents p, ∀ t ∈ p.teachersOf c.sectionId, ∀ id ∈ p.groupsOf t,
      groupLoad s m (p.group id) ≤ (p.group id).cap := by
  have hnone : ∀ o ∈ (teacherGroupCap seed).onStart s c, o.IsVoid := fun o ho =>
    absurd ho List.not_mem_nil
  rw [accepts_iff_isVoid, and_iff_right hnone]
  refine forall_congr' fun m => forall_congr' fun hm => ?_
  simp only [← @forall_mem_capObjections_isVoid_iff p s seed, teacherGroupCap, List.mem_flatMap,
    mem_distinct, sectionId_of_mem_presents hm]
  exact ⟨fun h t ht id hid o ho => h o ⟨id, ⟨t, ht, hid⟩, ho⟩,
    fun h o ⟨id, ⟨t, ht, hid⟩, ho⟩ => h t ht id hid o ho⟩

/-- A section counts for a group if a teacher of it is in the group. -/
theorem members_eq_zero {g : TeacherGroup} {id : SectionId}
    (h : ∀ t ∈ p.teachersOf id, t ∉ g.teacherIds) : members p g id = 0 := by
  rw [members, List.length_eq_zero_iff, List.filter_eq_nil_iff]
  intro t ht
  rw [List.contains_iff_mem]
  exact h t ht

/-- **One more section is not too many if the load is within the cap in every period of its run.** -/
theorem groupTeaching_cons_le (hs : s.Coherent) (hfresh : s.startOf? c.sectionId = none)
    {g : TeacherGroup} (hg : g ∈ p.groups)
    (hle : ∀ slot, groupTeaching p s.starts slot g ≤ g.cap)
    (hload : ∀ m ∈ c.presents p, ∀ t ∈ p.teachersOf c.sectionId, g.id ∈ p.groupsOf t →
      groupLoad s m g ≤ g.cap) (slot : Slot) : groupTeaching p (c :: s.starts) slot g ≤ g.cap := by
  rw [groupTeaching_cons]
  by_cases hteaches : c.covers slot ∧ ∃ t ∈ p.teachersOf c.sectionId, t ∈ g.teacherIds
  · obtain ⟨hslot, t, ht, htg⟩ := hteaches
    obtain ⟨m, hm, rfl⟩ := Start.exists_mem_presents_iff (p := p).2 hslot
    have hle := hload m hm t ht (p.mem_groupsOf.2 ⟨g, hg, rfl, htg⟩)
    rw [groupLoad_eq hs (by rwa [sectionId_of_mem_presents hm]), sectionId_of_mem_presents hm] at hle
    rwa [if_pos hslot]
  · have hzero : (if c.covers slot then members p g c.sectionId else 0) = 0 := by
      split
      · next hslot => exact members_eq_zero fun t ht htg => hteaches ⟨hslot, t, ht, htg⟩
      · rfl
    rw [hzero, Nat.zero_add]
    exact hle slot

/-- **At no slot does a group teach more than its cap allows.** -/
theorem hasLaw_teacherGroupCap {seed : UInt64} : (teacherGroupCap seed).HasLaw p fun l =>
    ∀ g ∈ p.groups, ∀ slot, groupTeaching p l slot g ≤ g.cap where
  nil g _ slot := Nat.zero_le _
  mono hlm hm g hg slot := (groupTeaching_mono hlm slot g).trans (hm g hg slot)
  accepts_iff {s c} hs hc hfresh hP := by
    rw [accepts_teacherGroupCap_iff]
    constructor
    · intro h g hg
      refine groupTeaching_cons_le hs hfresh hg (hP g hg) fun m hm t ht hid => ?_
      have hle := h m hm t ht g.id hid
      rwa [p.group_eq hg] at hle
    · intro h m hm t ht id hid
      obtain ⟨g, hg, rfl, -⟩ := p.mem_groupsOf.1 hid
      have hle := h g hg m.slot
      rw [groupTeaching_cons, if_pos (Start.exists_mem_presents_iff.1 ⟨m, hm, rfl⟩)] at hle
      rwa [p.group_eq hg, groupLoad_eq hs (by rwa [sectionId_of_mem_presents hm]),
        sectionId_of_mem_presents hm]

/-! ## Lunches -/

theorem forall_mem_lunchObjections_isVoid_iff {free : List Slot} {t : TeacherId} (hfree : free ≠ []) :
    (∀ o ∈ lunchObjections s c free t, o.IsVoid) ↔
      ∃ l ∈ free, ∀ a ∈ startsBeside s c t, ¬ a.covers l := by
  rw [lunchObjections_eq]
  split
  · next hall =>
    simp only [List.all_eq_true, List.any_eq_true] at hall
    constructor
    · intro h
      have hnil := Objection.isVoid_clash_iff.1 (h _ List.mem_cons_self)
      obtain ⟨l, hl⟩ := List.exists_mem_of_ne_nil free hfree
      obtain ⟨a, ha, hal⟩ := hall l hl
      exact absurd (List.any_eq_true.2 ⟨l, hl, hal⟩) (List.filter_eq_nil_iff.1 hnil a ha)
    · rintro ⟨l, hl, hnone⟩
      obtain ⟨a, ha, hal⟩ := hall l hl
      exact absurd hal (hnone a ha)
  · next hall =>
    simp only [List.all_eq_true, List.any_eq_true] at hall
    push Not at hall
    exact ⟨fun _ => hall, fun _ o ho => absurd ho List.not_mem_nil⟩

theorem accepts_lunch_iff : lunch.Accepts s c ↔
    ((∃ l ∈ lunchSlots p c.slot.blockId, c.covers l) → ∀ t ∈ p.teachersOf c.sectionId,
      ∃ l ∈ freeLunches p c, ∀ a ∈ startsBeside s c t, ¬ a.covers l) := by
  rw [accepts_iff_onStart fun m => rfl, onStart_lunch]
  split
  · next hcond =>
    refine ⟨fun _ hcover t ht => ?_, fun _ o ho => absurd ho List.not_mem_nil⟩
    rw [List.any_eq_true.2 hcover, List.isEmpty_eq_false_iff_exists_mem.2 ⟨t, ht⟩] at hcond
    cases hcond
  · next hcond =>
    simp only [Bool.or_eq_true, not_or, Bool.not_eq_true', Bool.not_eq_false, List.any_eq_true]
      at hcond
    obtain ⟨hcover, hteachers⟩ := hcond
    split
    · next hfree =>
      refine ⟨fun h => absurd (h _ List.mem_cons_self) Objection.not_isVoid_flaw, fun h => ?_⟩
      obtain ⟨t, ht⟩ := List.isEmpty_eq_false_iff_exists_mem.1 (Bool.eq_false_iff.2 hteachers)
      obtain ⟨l, hl, -⟩ := h hcover t ht
      rw [List.isEmpty_iff.1 hfree] at hl
      exact absurd hl List.not_mem_nil
    · next hfree =>
      have hne : freeLunches p c ≠ [] := fun hnil => hfree (List.isEmpty_iff.2 hnil)
      constructor
      · intro h _ t ht
        exact (forall_mem_lunchObjections_isVoid_iff hne).1 fun o ho =>
          h o (List.mem_flatMap.2 ⟨t, ht, ho⟩)
      · intro h o ho
        obtain ⟨t, ht, ho⟩ := List.mem_flatMap.1 ho
        exact (forall_mem_lunchObjections_isVoid_iff hne).2 (h hcover t ht) o ho

/-- What a teacher teaches beside a run, by the starts that are placed. -/
theorem mem_startsBeside_iff_holds (h : s.Coherent) {t : TeacherId} : a ∈ startsBeside s c t ↔
    s.Holds a ∧ t ∈ p.teachersOf a.sectionId ∧ a.sectionId ≠ c.sectionId ∧
      a.slot.blockId = c.slot.blockId := by
  rw [mem_startsBeside_iff]
  constructor
  · rintro ⟨id, ht, hne, ha, hblock⟩
    obtain ⟨hof, rfl⟩ := h.isOf ha
    obtain ⟨held, hheld, -⟩ := hof.exists_section
    exact ⟨ha, (p.mem_sectionsOfTeacher hheld).1 ht, hne, hblock⟩
  · rintro ⟨ha, ht, hne, hblock⟩
    obtain ⟨held, hheld, -⟩ := (h.isOf_of_holds ha).exists_section
    exact ⟨a.sectionId, (p.mem_sectionsOfTeacher hheld).2 ht, hne, ha, hblock⟩

/-- The start is one in a block that a teacher teaches. -/
def TaughtIn (p : Program) (t : TeacherId) (block : BlockId) (a : Start) : Prop :=
  t ∈ p.teachersOf a.sectionId ∧ a.slot.blockId = block

/-- **Whoever teaches in a lunch period of a block has another one of it free.** -/
theorem hasLaw_lunch : lunch.HasLaw p fun l =>
    ∀ t block, (∃ a ∈ l, TaughtIn p t block a ∧ ∃ k ∈ lunchSlots p block, a.covers k) →
      ∃ k ∈ lunchSlots p block, ∀ a ∈ l, TaughtIn p t block a → ¬ a.covers k where
  nil t block h := by
    obtain ⟨a, ha, -⟩ := h
    exact absurd ha List.not_mem_nil
  mono {l m} hlm hm t block h := by
    obtain ⟨a, ha, h⟩ := h
    obtain ⟨k, hk, hfree⟩ := hm t block ⟨a, hlm.subset ha, h⟩
    exact ⟨k, hk, fun a ha => hfree a (hlm.subset ha)⟩
  accepts_iff {s c} hs hc hfresh hP := by
    rw [accepts_lunch_iff]
    constructor
    · intro h t block hex
      by_cases hnew : TaughtIn p t block c ∧ ∃ k ∈ lunchSlots p block, c.covers k
      · obtain ⟨⟨ht, rfl⟩, hcover⟩ := hnew
        obtain ⟨k, hk, hbeside⟩ := h hcover t ht
        obtain ⟨hk, hck⟩ := List.mem_filter.1 hk
        refine ⟨k, hk, fun a ha hta => ?_⟩
        rcases List.mem_cons.1 ha with rfl | ha
        · simpa using hck
        · have ha := hs.mem_starts_iff.1 ha
          exact hbeside a ((mem_startsBeside_iff_holds hs).2
            ⟨ha, hta.1, ha.sectionId_ne hfresh, hta.2⟩)
      · -- the new start takes nobody's lunch, so the lunch that was free before still is
        obtain ⟨a, ha, hta, hak⟩ := hex
        have ha : a ∈ s.starts := (List.mem_cons.1 ha).resolve_left fun hac =>
          hnew (hac ▸ ⟨hta, hak⟩)
        obtain ⟨k, hk, hfree⟩ := hP t block ⟨a, ha, hta, hak⟩
        refine ⟨k, hk, fun b hb htb hbk => ?_⟩
        rcases List.mem_cons.1 hb with rfl | hb
        · exact hnew ⟨htb, k, hk, hbk⟩
        · exact hfree b hb htb hbk
    · intro h hcover t ht
      obtain ⟨k, hk, hfree⟩ := h t c.slot.blockId ⟨c, List.mem_cons_self, ⟨ht, rfl⟩, hcover⟩
      have hck := hfree c List.mem_cons_self ⟨ht, rfl⟩
      refine ⟨k, List.mem_filter.2 ⟨hk, by simpa using hck⟩, fun a ha => ?_⟩
      obtain ⟨ha, hta, -, hblock⟩ := (mem_startsBeside_iff_holds hs).1 ha
      exact hfree a (List.mem_cons_of_mem c (hs.mem_starts_iff.2 ha)) ⟨hta, hblock⟩

end Rule

/-! ## All rules -/

/-- **Every rule but that of prerequisites has a law, if nothing is pinned.** -/
theorem RuleKind.exists_hasLaw (p : Program) {bounds : SizeBounds} {seed : UInt64} {kind : RuleKind}
    (hkind : kind ≠ .prerequisites) : ∃ P, (kind.rule bounds .none seed).HasLaw p P := by
  cases kind with
  | duplicateSections => exact ⟨_, Rule.hasLaw_duplicateSections⟩
  | teacherConflict => exact ⟨_, Rule.hasLaw_teacherConflict⟩
  | localConflict => exact ⟨_, Rule.hasLaw_of_static fun s c => rfl⟩
  | roomConflict => exact ⟨_, Rule.hasLaw_roomConflict⟩
  | roomProperties => exact ⟨_, Rule.hasLaw_of_static fun s c => rfl⟩
  | resources => exact ⟨_, Rule.hasLaw_resources⟩
  | prerequisites => exact absurd rfl hkind
  | gradeRange => exact ⟨_, Rule.hasLaw_of_static fun s c => rfl⟩
  | teacherGroupCap => exact ⟨_, Rule.hasLaw_teacherGroupCap⟩
  | lunch => exact ⟨_, Rule.hasLaw_lunch⟩
  | locked => exact ⟨_, Rule.hasLaw_of_static fun s c => rfl⟩

end Timetable

import Timetable.Proofs.Pinned
import Timetable.Proofs.Removal
import Timetable.Proofs.Replay

/-!
# Limits that no schedule exceeds

Three rules set limits that are not about pairs of starts: units of equipment, caps of teacher groups
and lunch breaks.  This file shows that no schedule that can be reached exceeds them, pinned
placements or not.

Pins matter because a pinned start is placed whatever faults are found with it.  What it clashes with
still has to go, so only what a rule holds against the start by itself is let pass:

* Equipment that is not lent at all.  Pinned starts may lack it, and nobody else does:
  `Reachable.pool_not_overdrawn`.
* A section that is above a cap by itself.  If no pinned section is, the cap is kept:
  `Reachable.caps_kept`.
* A run that takes up all lunch periods of its block.  If no pinned start does, everybody eats:
  `Reachable.everybody_eats`.

In each case a start is added to starts that keep to the limit (`Edits.invariant`), and as it names
nobody the rule has counted and found that there is room for it.
-/

set_option autoImplicit false

namespace Timetable

variable {p : Program} {book : Rulebook} {s : Schedule p} {c : Start}

/-! ## A rival in the place of a pinned start -/

namespace Contested

/-- The rules against double booking and one more, with the pin. -/
def bookWith (kind : RuleKind) : Rulebook :=
  (config [.duplicateSections, .roomConflict, kind]).rulebook

/-- A start is forced where the pinned one is placed. -/
def takenBy (kind : RuleKind) (c : Start) : Schedule program :=
  ((bookWith kind).force ((bookWith kind).assign (.empty program) pinnedStart).2 c).2

theorem reachable_takenBy (kind : RuleKind) (hc : c ∈ rivals) :
    Reachable (bookWith kind) (takenBy kind c) :=
  (Reaches.refl.assign trivial isOf_pinnedStart).force trivial (isOf_rival c hc)

theorem isBuiltIn_bookWith (kind : RuleKind) : (bookWith kind).IsBuiltIn :=
  RuleConfig.isBuiltIn_rulebook _

theorem duplicateSections_mem (kind : RuleKind) : .duplicateSections ∈ (bookWith kind).rules :=
  List.mem_cons_self

theorem roomConflict_mem (kind : RuleKind) : .roomConflict ∈ (bookWith kind).rules :=
  List.mem_cons_of_mem _ List.mem_cons_self

theorem kind_mem (kind : RuleKind) :
    kind.rule {} (.ofList [pin]) 2 ∈ (bookWith kind).rules :=
  List.mem_cons_of_mem _ (List.mem_cons_of_mem _ List.mem_cons_self)

/-- Only one start is pinned. -/
theorem eq_pinnedStart_of_holds {kind : RuleKind} (hc : c.IsOf program)
    (hpin : (bookWith kind).pins.holds c) : c = pinnedStart := by
  obtain ⟨t, ht, hallows⟩ := Pins.holds_iff.1 hpin
  obtain ⟨hmem, hid⟩ := Pins.mem_of_find?_ofList ht
  obtain ⟨hr, hq⟩ := Pins.allows_iff.1 hallows
  cases List.mem_singleton.1 hmem
  exact hc.eq_of_ids isOf_pinnedStart hid.symm hr.symm hq.symm

end Contested

/-! ## Equipment -/

namespace Rule

/-- **If nobody is named, a unit is left** of what is needed and lent at all. -/
theorem length_borrowers_lt_of_not_names {seed : UInt64} (h : ∀ a, ¬ (resources seed).Names s c a)
    {m : Present} (hm : m ∈ c.presents p) {q : ResourceId}
    (hq : q ∈ borrowed p c.sectionId c.roomId) (hunits : (p.resource q).floating ≠ 0) :
    (borrowers s m q).length < (p.resource q).floating := by
  refine (@forall_mem_poolObjections_isVoid_iff p s seed m q).1 fun o ho => ?_
  refine ⟨forall_mem_poolObjections_isFlaw_iff.2 hunits o ho, ?_⟩
  rw [← sectionId_of_mem_presents hm, ← roomId_of_mem_presents hm] at hq
  have hmem : o ∈ (resources seed).onPresent s m := List.mem_flatMap.2 ⟨q, hq, ho⟩
  exact List.eq_nil_iff_forall_not_mem.2 fun a ha => h a (names_iff.2 (.inr ⟨m, hm, o, hmem, ha⟩))

/-- What is borrowed by a start without a fault is lent. -/
theorem floating_ne_zero_of_permits {seed : UInt64} (hc : c.IsOf p)
    (h : (resources seed).Permits s c) {q : ResourceId}
    (hq : q ∈ borrowed p c.sectionId c.roomId) : (p.resource q).floating ≠ 0 := by
  obtain ⟨m, hm, -⟩ := Start.exists_mem_presents_iff (p := p).2 hc.covers_slot
  refine (permits_resources_iff.1 h).2 m hm q ?_
  rwa [sectionId_of_mem_presents hm, roomId_of_mem_presents hm]

end Rule

/-- Starts share the floating units of a resource: at no slot are more lent than there are, and if
there are none only pinned starts go without. -/
structure SharesPool (p : Program) (pins : Pins) (q : ResourceId) (l : List Start) : Prop where
  unitsLent_le : (p.resource q).floating ≠ 0 → ∀ slot,
    Rule.unitsLent p l slot q ≤ (p.resource q).floating
  holds_of_borrowed : (p.resource q).floating = 0 → ∀ a ∈ l,
    q ∈ Rule.borrowed p a.sectionId a.roomId → pins.holds a

namespace SharesPool

variable {pins : Pins} {q : ResourceId} {l m : List Start}

theorem nil : SharesPool p pins q [] where
  unitsLent_le _ _ := Nat.zero_le _
  holds_of_borrowed _ _ ha := absurd ha List.not_mem_nil

theorem mono (hlm : l.Subperm m) (h : SharesPool p pins q m) : SharesPool p pins q l where
  unitsLent_le hunits slot := (hlm.countP_le _).trans (h.unitsLent_le hunits slot)
  holds_of_borrowed hnone a ha := h.holds_of_borrowed hnone a (hlm.subset ha)

/-- A start that is valid shares the pool with those that are placed. -/
theorem cons {seed : UInt64} (hresources : .resources seed ∈ book.rules) (hs : s.Coherent)
    (hc : c.IsOf p) (hfresh : s.startOf? c.sectionId = none) (hv : (book.validate s c).isValid)
    (h : SharesPool p book.pins q s.starts) : SharesPool p book.pins q (c :: s.starts) := by
  obtain ⟨hlocal, hglobal⟩ := Rulebook.isValid_validate_iff.1 hv
  constructor
  · intro hunits
    refine Rule.unitsLent_cons_le hs hfresh (h.unitsLent_le hunits) fun hq m hm => ?_
    exact Rule.length_borrowers_lt_of_not_names (hglobal _ hresources) hm hq hunits
  · intro hnone a ha hq
    rcases List.mem_cons.1 ha with rfl | ha
    · refine hlocal.resolve_right fun hpermits => ?_
      exact Rule.floating_ne_zero_of_permits hc (hpermits _ hresources) hq hnone
    · exact h.holds_of_borrowed hnone a ha hq

end SharesPool

/-- **No floating pool is overdrawn**, and what does not float is missed by pinned starts only. -/
theorem Reachable.pool_not_overdrawn (hbook : book.IsBuiltIn)
    (hdup : .duplicateSections ∈ book.rules) (hroom : .roomConflict ∈ book.rules) {seed : UInt64}
    (hresources : .resources seed ∈ book.rules) (h : Reachable book s) :
    ∀ r ∈ p.resources,
      (1 ≤ r.floating → ∀ slot, Rule.unitsLent p s.starts slot r.id ≤ r.floating) ∧
      (r.floating = 0 → ∀ a ∈ s.starts, r.id ∈ Rule.borrowed p a.sectionId a.roomId →
        book.pins.holds a) := by
  intro r hr
  have hshares : SharesPool p book.pins r.id s.starts :=
    (h.edits hdup hroom hbook).invariant hdup hroom .nil .mono fun hs hc hfresh hv =>
      .cons hresources hs hc hfresh hv
  obtain ⟨hunitsLent, hborrowed⟩ := hshares
  rw [p.resource_eq hr] at hunitsLent hborrowed
  exact ⟨fun hunits => hunitsLent (Nat.ne_of_gt hunits), hborrowed⟩

theorem pool_not_overdrawn_borrower :
    (Contested.takenBy .resources Contested.borrower).starts = [Contested.borrower] ∧
      ∀ slot, Rule.unitsLent Contested.program [Contested.borrower] slot ⟨1⟩ ≤ 1 := by
  have hstarts : (Contested.takenBy .resources Contested.borrower).starts = [Contested.borrower] := by
    decide +kernel
  have hkept := Reachable.pool_not_overdrawn (Contested.isBuiltIn_bookWith .resources)
    (Contested.duplicateSections_mem _) (Contested.roomConflict_mem _) (Contested.kind_mem .resources)
    (Contested.reachable_takenBy .resources (c := Contested.borrower) List.mem_cons_self)
  rw [hstarts] at hkept
  exact ⟨hstarts, (hkept { id := ⟨1⟩, floating := 1 } List.mem_cons_self).1 (Nat.le_refl 1)⟩

/-! ## Caps of teacher groups -/

namespace Rule

/-- **If nobody is named, the load is within the cap**, unless the section alone is above it. -/
theorem groupLoad_le_of_not_names {seed : UInt64}
    (h : ∀ a, ¬ (teacherGroupCap seed).Names s c a) {m : Present} (hm : m ∈ c.presents p)
    {t : TeacherId} (ht : t ∈ p.teachersOf c.sectionId) {id : GroupId} (hid : id ∈ p.groupsOf t)
    (hown : members p (p.group id) m.sectionId ≤ (p.group id).cap) :
    groupLoad s m (p.group id) ≤ (p.group id).cap := by
  refine (@forall_mem_capObjections_isVoid_iff p s seed m id).1 fun o ho => ?_
  refine ⟨forall_mem_capObjections_isFlaw_iff.2 hown o ho, ?_⟩
  rw [← sectionId_of_mem_presents hm] at ht
  have hmem : o ∈ (teacherGroupCap seed).onPresent s m :=
    List.mem_flatMap.2 ⟨id, mem_distinct.2 (List.mem_flatMap.2 ⟨t, ht, hid⟩), ho⟩
  exact List.eq_nil_iff_forall_not_mem.2 fun a ha => h a (names_iff.2 (.inr ⟨m, hm, o, hmem, ha⟩))

end Rule

/-- A valid start of a section that is within the cap by itself, if it is pinned, keeps to the cap. -/
theorem Rulebook.groupTeaching_cons_le_of_isValid {seed : UInt64}
    (hcap : .teacherGroupCap seed ∈ book.rules) (hs : s.Coherent)
    (hfresh : s.startOf? c.sectionId = none) (hv : (book.validate s c).isValid) {g : TeacherGroup}
    (hg : g ∈ p.groups) (hpinned : book.pins.holds c → Rule.members p g c.sectionId ≤ g.cap)
    (h : ∀ slot, Rule.groupTeaching p s.starts slot g ≤ g.cap) (slot : Slot) :
    Rule.groupTeaching p (c :: s.starts) slot g ≤ g.cap := by
  obtain ⟨hlocal, hglobal⟩ := isValid_validate_iff.1 hv
  refine Rule.groupTeaching_cons_le hs hfresh hg h (fun m hm t ht hid => ?_) slot
  have hown : Rule.members p (p.group g.id) m.sectionId ≤ (p.group g.id).cap := by
    rcases hlocal with hpin | hpermits
    · rw [p.group_eq hg, Rule.sectionId_of_mem_presents hm]
      exact hpinned hpin
    · rw [← Rule.sectionId_of_mem_presents hm] at ht
      exact Rule.permits_teacherGroupCap_iff.1 (hpermits _ hcap) m hm g.id
        (mem_distinct.2 (List.mem_flatMap.2 ⟨t, ht, hid⟩))
  have hle := Rule.groupLoad_le_of_not_names (hglobal _ hcap) hm ht hid hown
  rwa [p.group_eq hg] at hle

/-- **The cap of a group is kept at every slot**, if no pinned section is above it by itself. -/
theorem Reachable.caps_kept (hbook : book.IsBuiltIn) (hdup : .duplicateSections ∈ book.rules)
    (hroom : .roomConflict ∈ book.rules) {seed : UInt64}
    (hcap : .teacherGroupCap seed ∈ book.rules) (h : Reachable book s) :
    ∀ g ∈ p.groups, (∀ id, book.pins.find? id ≠ none → Rule.members p g id ≤ g.cap) →
      ∀ slot, Rule.groupTeaching p s.starts slot g ≤ g.cap := by
  intro g hg hpinned
  refine (h.edits hdup hroom hbook).invariant
    (P := fun l => ∀ slot, Rule.groupTeaching p l slot g ≤ g.cap) hdup hroom
    (fun slot => Nat.zero_le _) (fun hlm hm slot => (Rule.groupTeaching_mono hlm slot g).trans (hm slot))
    fun {t c} ht hc hfresh hv hrest => ?_
  refine Rulebook.groupTeaching_cons_le_of_isValid hcap ht hfresh hv hg (fun hpin => ?_) hrest
  obtain ⟨pin, hfind, -⟩ := Pins.holds_iff.1 hpin
  exact hpinned c.sectionId (by rw [hfind]; exact Option.some_ne_none pin)

theorem caps_kept_colleague :
    (Contested.takenBy .teacherGroupCap Contested.colleague).starts = [Contested.colleague] ∧
      ∀ g ∈ Contested.program.groups, ∀ slot,
        Rule.groupTeaching Contested.program [Contested.colleague] slot g ≤ g.cap := by
  have hstarts : (Contested.takenBy .teacherGroupCap Contested.colleague).starts =
      [Contested.colleague] := by
    decide +kernel
  have hkept := Reachable.caps_kept (Contested.isBuiltIn_bookWith .teacherGroupCap)
    (Contested.duplicateSections_mem _) (Contested.roomConflict_mem _)
    (Contested.kind_mem .teacherGroupCap)
    (Contested.reachable_takenBy .teacherGroupCap (c := Contested.colleague)
      (List.mem_cons_of_mem _ List.mem_cons_self))
  rw [hstarts] at hkept
  refine ⟨hstarts, fun g hg => hkept g hg fun id hid => ?_⟩
  obtain ⟨t, ht⟩ := Option.ne_none_iff_exists'.1 hid
  obtain ⟨hmem, rfl⟩ := Pins.mem_of_find?_ofList ht
  cases List.mem_singleton.1 hmem
  revert g
  decide +kernel

/-! ## Lunches -/

theorem Rule.mem_lunchSlots_iff {block : BlockId} {slot : Slot} :
    slot ∈ lunchSlots p block ↔ ∃ q ∈ p.lunchPeriods block, q.slot = slot := List.mem_map

/-- A run that leaves a lunch period free, if there is one in its block, is without a fault. -/
theorem Rule.permits_lunch_of_free (h : p.lunchPeriods c.slot.blockId ≠ [] →
    ∃ q ∈ p.lunchPeriods c.slot.blockId, c.covers q.slot = false) : lunch.Permits s c := by
  refine permits_lunch_iff.2 fun ⟨k, hk, _⟩ _ => ?_
  obtain ⟨lunch, hlunch, -⟩ := mem_lunchSlots_iff.1 hk
  obtain ⟨q, hq, hfree⟩ := h (List.ne_nil_of_mem hlunch)
  refine List.ne_nil_of_mem (a := q.slot) (List.mem_filter.2 ⟨mem_lunchSlots_iff.2 ⟨q, hq, rfl⟩, ?_⟩)
  rw [hfree]
  rfl

/-- What a teacher teaches in a lunch period of a block is taught in that block. -/
theorem Rule.taughtIn_of_covers {t : TeacherId} {block : BlockId} {q : Period} {a : Start}
    (hq : q ∈ p.lunchPeriods block) (ht : t ∈ p.teachersOf a.sectionId) (h : a.covers q.slot) :
    TaughtIn p t block a :=
  ⟨ht, (Start.covers_iff.1 h).1.symm.trans (p.blockId_of_mem_lunchPeriods hq)⟩

/-- **Everybody eats**: of the lunch periods of a block every teacher has one free, if no pinned
start takes up all of them. -/
theorem Reachable.everybody_eats (hbook : book.IsBuiltIn)
    (hdup : .duplicateSections ∈ book.rules) (hroom : .roomConflict ∈ book.rules)
    (hlunch : .lunch ∈ book.rules)
    (hpinned : ∀ c : Start, c.IsOf p → book.pins.holds c → p.lunchPeriods c.slot.blockId ≠ [] →
      ∃ q ∈ p.lunchPeriods c.slot.blockId, c.covers q.slot = false)
    (h : Reachable book s) : ∀ (t : TeacherId) (block : BlockId), p.lunchPeriods block ≠ [] →
      ∃ q ∈ p.lunchPeriods block, ∀ a ∈ s.starts, t ∈ p.teachersOf a.sectionId →
        a.covers q.slot = false := by
  intro t block hblock
  have hlaw := (h.edits hdup hroom hbook).law hdup hroom hlunch Rule.hasLaw_lunch
    fun {_ c} hc hpin => Rule.permits_lunch_of_free (hpinned c hc hpin)
  by_cases hteaches : ∃ a ∈ s.starts, Rule.TaughtIn p t block a ∧
      ∃ k ∈ Rule.lunchSlots p block, a.covers k
  · obtain ⟨k, hk, hfree⟩ := hlaw t block hteaches
    obtain ⟨q, hq, rfl⟩ := Rule.mem_lunchSlots_iff.1 hk
    refine ⟨q, hq, fun a ha hta => Bool.eq_false_iff.2 fun hcovers => ?_⟩
    exact hfree a ha (Rule.taughtIn_of_covers hq hta hcovers) hcovers
  · -- whoever teaches in no lunch period of the block has all of them free
    obtain ⟨q, hq⟩ := List.exists_mem_of_ne_nil _ hblock
    refine ⟨q, hq, fun a ha hta => Bool.eq_false_iff.2 fun hcovers => hteaches ?_⟩
    exact ⟨a, ha, Rule.taughtIn_of_covers hq hta hcovers, q.slot,
      Rule.mem_lunchSlots_iff.2 ⟨q, hq, rfl⟩, hcovers⟩

theorem everybody_eats_laterLesson :
    (Contested.takenBy .lunch Contested.laterLesson).starts = [Contested.laterLesson] ∧
      ∃ q ∈ Contested.program.lunchPeriods ⟨1⟩, Contested.laterLesson.covers q.slot = false := by
  have hstarts : (Contested.takenBy .lunch Contested.laterLesson).starts =
      [Contested.laterLesson] := by
    decide +kernel
  have heats := Reachable.everybody_eats (Contested.isBuiltIn_bookWith .lunch)
    (Contested.duplicateSections_mem _) (Contested.roomConflict_mem _) (Contested.kind_mem .lunch)
    (fun c hc hpin _ => by
      rw [Contested.eq_pinnedStart_of_holds hc hpin]
      decide +kernel)
    (Contested.reachable_takenBy .lunch (c := Contested.laterLesson)
      (List.mem_cons_of_mem _ (List.mem_cons_of_mem _ List.mem_cons_self)))
  obtain ⟨q, hq, hfree⟩ := heats ⟨1⟩ ⟨1⟩ (by decide +kernel)
  rw [hstarts] at hfree
  exact ⟨hstarts, q, hq, hfree _ List.mem_cons_self (by decide +kernel)⟩

end Timetable

import Timetable.Proofs.Law

/-!
# What the rules say when less is placed

Taking out starts can only help a candidate, except that it may need some of them to come before it.
This file compares what a rule says in two schedules, of which one, beside the section of the
candidate, holds nothing that the other does not hold (`Schedule.HoldsLess`).

* `RuleKind.permits_of_holdsLess`: whoever is permitted in the fuller schedule is permitted in the
  other one, by every rule but that of prerequisites.
* `RuleKind.sectionId_eq_of_names`: if those named in the fuller schedule are not in the other one,
  then there nobody is named, or only the candidate's own section.  So what a rule names is enough.
  For the rules that draw lots this is a matter of counting: `length_borrowers_lt` for equipment and
  `groupLoad_le` for caps.
-/

set_option autoImplicit false

namespace Timetable

variable {p : Program} {s t : Schedule p} {c a : Start}

/-- Beside the section of a start, what is placed in `t` is placed in `s`, too. -/
def Schedule.HoldsLess (t s : Schedule p) (c : Start) : Prop :=
  ∀ b, t.Holds b → b.sectionId ≠ c.sectionId → s.Holds b

namespace Rule

/-- Nobody who is placed in `t`, beside the section of a start, is named in `s`. -/
def Spares (r : Rule) (s : Schedule p) (c : Start) (t : Schedule p) : Prop :=
  ∀ b, t.Holds b → b.sectionId ≠ c.sectionId → ¬ r.Names s c b

/-! ## Equipment -/

section Equipment

variable {m : Present} {q : ResourceId}

theorem mem_borrowers_iff_holds (h : s.Coherent) : a ∈ borrowers s m q ↔ s.Holds a ∧
    a.covers m.slot ∧ a.sectionId ≠ m.sectionId ∧ q ∈ borrowed p a.sectionId a.roomId := by
  rw [mem_borrowers_iff, ← and_assoc, ← h.exists_mem_occurring_iff]
  constructor
  · rintro ⟨o, ho, rfl, h⟩
    exact ⟨⟨o, ho, rfl⟩, h⟩
  · rintro ⟨⟨o, ho, rfl⟩, h⟩
    exact ⟨o, ho, rfl, h⟩

theorem nodup_borrowers (h : s.Coherent) : (borrowers s m q).Nodup :=
  (List.filter_sublist.map _).nodup
    ((h.occurring_perm m.slot).nodup_iff.2 (h.nodup_starts.filter _))

theorem borrowers_subset (hs : s.Coherent) (ht : t.Coherent) (hless : t.HoldsLess s c)
    (hm : m.sectionId = c.sectionId) : borrowers t m q ⊆ borrowers s m q := by
  intro a ha
  obtain ⟨ha, hcovers, hne, hq⟩ := (mem_borrowers_iff_holds ht).1 ha
  exact (mem_borrowers_iff_holds hs).2 ⟨hless a ha (hm ▸ hne), hcovers, hne, hq⟩

/-- **Without those the lot has named a unit is left.** -/
theorem length_borrowers_lt (hs : s.Coherent) (ht : t.Coherent) (hless : t.HoldsLess s c)
    (hm : m ∈ c.presents p) (hq : q ∈ borrowed p c.sectionId c.roomId) {seed : UInt64}
    (hspares : (resources seed).Spares s c t) (hunits : (p.resource q).floating ≠ 0) :
    (borrowers t m q).length < (p.resource q).floating := by
  have hsub := borrowers_subset (q := q) hs ht hless (sectionId_of_mem_presents hm)
  by_cases hfull : (p.resource q).floating ≤ (borrowers s m q).length
  · -- the borrowers left are among those that come after the ones named
    have hlot := drawLots_perm (lot seed m q.val) (borrowers s m q)
    have hdrop : borrowers t m q ⊆ (drawLots (lot seed m q.val) (borrowers s m q)).drop
        ((borrowers s m q).length + 1 - (p.resource q).floating) := by
      intro a ha
      obtain ⟨hta, -, hne, -⟩ := (mem_borrowers_iff_holds ht).1 ha
      have hnames := hspares a hta (sectionId_of_mem_presents hm ▸ hne)
      have hmem := hlot.mem_iff.2 (hsub ha)
      rw [← List.take_append_drop ((borrowers s m q).length + 1 - (p.resource q).floating)
        (drawLots (lot seed m q.val) (borrowers s m q)), List.mem_append] at hmem
      exact hmem.resolve_left fun htake =>
        hnames (names_resources_iff.2 ⟨m, hm, q, hq, hunits, hfull, htake⟩)
    have hle := (List.subperm_of_subset (nodup_borrowers ht) hdrop).length_le
    rw [List.length_drop, hlot.length_eq] at hle
    omega
  · have hle := (List.subperm_of_subset (nodup_borrowers ht) hsub).length_le
    omega

end Equipment

/-! ## Caps of teacher groups -/

section Caps

variable {m : Present} {g : TeacherGroup}

theorem mem_groupStarts_iff_holds (h : s.Coherent) {n : Nat} : (a, n) ∈ groupStarts s m g ↔
    s.Holds a ∧ a.covers m.slot ∧ a.sectionId ≠ m.sectionId ∧ members p g a.sectionId = n ∧
      0 < n := by
  rw [← and_assoc, ← h.exists_mem_occurring_iff, groupStarts]
  simp only [List.mem_filter, List.mem_map, decide_eq_true_eq, Prod.mk.injEq, gt_iff_lt]
  constructor
  · rintro ⟨⟨o, ⟨ho, hne⟩, rfl, rfl⟩, hn⟩
    exact ⟨⟨o, ho, rfl⟩, hne, rfl, hn⟩
  · rintro ⟨⟨o, ho, rfl⟩, hne, rfl, hn⟩
    exact ⟨⟨o, ⟨ho, hne⟩, rfl, rfl⟩, hn⟩

/-- Nobody teaches for a group twice. -/
theorem nodup_fst_groupStarts (h : s.Coherent) : ((groupStarts s m g).map (·.1)).Nodup := by
  refine (List.filter_sublist.map Prod.fst).nodup ?_
  rw [List.map_map]
  exact (List.filter_sublist.map _).nodup
    ((h.occurring_perm m.slot).nodup_iff.2 (h.nodup_starts.filter _))

theorem nodup_groupStarts (h : s.Coherent) : (groupStarts s m g).Nodup :=
  (nodup_fst_groupStarts h).of_map _

theorem groupStarts_subset (hs : s.Coherent) (ht : t.Coherent) (hless : t.HoldsLess s c)
    (hm : m.sectionId = c.sectionId) : groupStarts t m g ⊆ groupStarts s m g := by
  rintro ⟨a, n⟩ ha
  obtain ⟨ha, hcovers, hne, hn⟩ := (mem_groupStarts_iff_holds ht).1 ha
  exact (mem_groupStarts_iff_holds hs).2 ⟨hless a ha (hm ▸ hne), hcovers, hne, hn⟩

/-- **Starts are dropped until the cap is met by those that are left**, and not before. -/
theorem exists_shed_eq {cap own : Nat} (hown : own ≤ cap) (l : List (Start × Nat)) :
    ∃ dropped kept, l = dropped ++ kept ∧
      shed cap (own + total (l.map (·.2))) l = dropped.map (·.1) ∧
      own + total (kept.map (·.2)) ≤ cap ∧
      ∀ before e, dropped = before ++ [e] → cap < own + total ((e :: kept).map (·.2)) := by
  induction l with
  | nil => exact ⟨[], [], rfl, rfl, hown, by simp⟩
  | cons e l ih =>
    by_cases hload : own + total ((e :: l).map (·.2)) ≤ cap
    · exact ⟨[], e :: l, rfl, by rw [shed, if_pos hload]; rfl, hload, by simp⟩
    · obtain ⟨dropped, kept, hl, hshed, hkept, hlast⟩ := ih
      refine ⟨e :: dropped, kept, by rw [hl, List.cons_append], ?_, hkept, fun before x hx => ?_⟩
      · have hrest : own + total ((e :: l).map (·.2)) - e.2 = own + total (l.map (·.2)) := by
          rw [List.map_cons, total_cons]
          omega
        rw [shed, if_neg hload, hrest, hshed, List.map_cons]
      · rcases List.cons_eq_append_iff.1 hx with ⟨-, he⟩ | ⟨before, rfl, hdropped⟩
        · obtain ⟨rfl, rfl⟩ := List.cons.inj he
          rw [List.nil_append] at hl
          exact hl ▸ Nat.lt_of_not_le hload
        · exact hlast before x hdropped

/-- **Without those the lot has named the cap is met.** -/
theorem groupLoad_le (hs : s.Coherent) (ht : t.Coherent) (hless : t.HoldsLess s c)
    (hm : m ∈ c.presents p) {teacher : TeacherId} (hteacher : teacher ∈ p.teachersOf c.sectionId)
    {id : GroupId} (hid : id ∈ p.groupsOf teacher) {seed : UInt64}
    (hspares : (teacherGroupCap seed).Spares s c t)
    (hown : members p (p.group id) m.sectionId ≤ (p.group id).cap) :
    groupLoad t m (p.group id) ≤ (p.group id).cap := by
  have hsub := groupStarts_subset (g := p.group id) hs ht hless (sectionId_of_mem_presents hm)
  by_cases hload : groupLoad s m (p.group id) ≤ (p.group id).cap
  · have hle := total_map_le_of_subperm
      (List.subperm_of_subset (nodup_groupStarts ht) hsub) (·.2)
    rw [groupLoad] at hload ⊢
    omega
  · -- the lot names a part of the starts, and those left are in the other part
    have hlot := (drawLots_perm (lot seed m id.val) (groupStarts s m (p.group id))).symm.trans
      (List.reverse_perm _).symm
    obtain ⟨dropped, kept, hl, hshed, hkept, -⟩ := exists_shed_eq hown
      (drawLots (lot seed m id.val) (groupStarts s m (p.group id))).reverse
    rw [← total_eq_of_perm (hlot.map _)] at hshed
    have hsub' : groupStarts t m (p.group id) ⊆ kept := by
      rintro ⟨a, n⟩ ha
      obtain ⟨hta, -, hne, -⟩ := (mem_groupStarts_iff_holds ht).1 ha
      have hnames := hspares a hta (sectionId_of_mem_presents hm ▸ hne)
      have hmem := hlot.mem_iff.1 (hsub ha)
      rw [hl, List.mem_append] at hmem
      refine hmem.resolve_left fun hdropped => hnames (names_teacherGroupCap_iff.2
        ⟨m, hm, teacher, hteacher, id, hid, hown, Nat.lt_of_not_le hload, ?_⟩)
      exact hshed ▸ List.mem_map_of_mem hdropped
    have hle := total_map_le_of_subperm
      (List.subperm_of_subset (nodup_groupStarts ht) hsub') (·.2)
    rw [groupLoad]
    omega

end Caps

/-! ## Lunches and pins -/

theorem startsBeside_subset (hs : s.Coherent) (ht : t.Coherent) (hless : t.HoldsLess s c)
    (teacher : TeacherId) : startsBeside t c teacher ⊆ startsBeside s c teacher := by
  intro a ha
  obtain ⟨ha, hteacher, hne, hblock⟩ := (mem_startsBeside_iff_holds ht).1 ha
  exact (mem_startsBeside_iff_holds hs).2 ⟨hless a ha hne, hteacher, hne, hblock⟩

/-- The rule of lunches finds fault with a run that covers all of them. -/
theorem permits_lunch_iff : lunch.Permits s c ↔ ((∃ l ∈ lunchSlots p c.slot.blockId, c.covers l) →
    p.teachersOf c.sectionId ≠ [] → freeLunches p c ≠ []) := by
  have hpresent : ∀ m ∈ c.presents p, ∀ o ∈ lunch.onPresent s m, o.isFlaw = false :=
    fun _ _ o ho => absurd ho List.not_mem_nil
  rw [permits_iff, and_iff_left hpresent, onStart_lunch]
  split
  · next hcond =>
    refine ⟨fun _ hcovers hteachers => ?_, fun _ o ho => absurd ho List.not_mem_nil⟩
    simp [List.any_eq_true.2 hcovers, hteachers] at hcond
  · next hcond =>
    simp only [Bool.or_eq_true, not_or, Bool.not_eq_true', Bool.not_eq_false, List.any_eq_true,
      List.isEmpty_iff] at hcond
    split
    · next hfree =>
      refine ⟨fun h => ?_, fun h => absurd (List.isEmpty_iff.1 hfree) (h hcond.1 hcond.2)⟩
      exact absurd (h _ List.mem_cons_self) (by simp [Objection.isFlaw])
    · next hfree =>
      refine ⟨fun _ _ _ hnil => hfree (List.isEmpty_iff.2 hnil), fun _ o ho => ?_⟩
      obtain ⟨teacher, -, ho⟩ := List.mem_flatMap.1 ho
      rw [lunchObjections_eq] at ho
      split at ho
      · cases List.mem_singleton.1 ho
        rfl
      · exact absurd ho List.not_mem_nil

theorem permits_locked_of_holdsLess {pins : Pins} (hs : s.Coherent) (ht : t.Coherent)
    (hless : t.HoldsLess s c) (h : (locked pins).Permits s c) : (locked pins).Permits t c := by
  rw [permits_iff] at h ⊢
  refine ⟨h.1, fun m hm o ho => h.2 m hm o ?_⟩
  simp only [locked] at ho ⊢
  split
  · next hpins => simp [hpins] at ho
  · next hpins =>
    rw [if_neg hpins] at ho
    obtain ⟨other, hother, ho⟩ := List.mem_flatMap.1 ho
    obtain ⟨hmem, hother⟩ := List.mem_filter.1 hother
    refine List.mem_flatMap.2 ⟨other, List.mem_filter.2 ⟨?_, hother⟩, ho⟩
    obtain ⟨hholds, hpresent⟩ := ht.mem_occurring_iff.1 hmem
    refine hs.mem_occurring_iff.2 ⟨hless _ hholds ?_, hpresent⟩
    rw [← sectionId_of_mem_presents hm]
    exact of_decide_eq_true (Bool.and_eq_true_iff.1 hother).1

end Rule

/-! ## All rules -/

namespace RuleKind

variable {bounds : SizeBounds} {pins : Pins} {seed : UInt64} {kind : RuleKind}

/-- **If nobody who is left was named, only the candidate's own section may be.** -/
theorem sectionId_eq_of_names (hs : s.Coherent) (ht : t.Coherent) (hc : c.IsOf p)
    (hless : t.HoldsLess s c) (hspares : (kind.rule bounds pins seed).Spares s c t)
    (h : (kind.rule bounds pins seed).Names t c a) : a.sectionId = c.sectionId := by
  by_contra hne
  have hta := holds_of_names ht hc h
  have hnot := hspares a hta hne
  have hsa := hless a hta hne
  cases kind with
  | duplicateSections => exact hne (ht.isOf (Rule.names_duplicateSections_iff.1 h)).2
  | teacherConflict =>
    exact hnot ((Rule.names_teacherConflict_iff hs hc).2
      ⟨hsa, ((Rule.names_teacherConflict_iff ht hc).1 h).2⟩)
  | localConflict => exact Rule.not_names_localConflict h
  | roomConflict =>
    exact hnot ((Rule.names_roomConflict_iff hs hc).2
      ⟨hsa, ((Rule.names_roomConflict_iff ht hc).1 h).2⟩)
  | roomProperties => exact Rule.not_names_roomProperties h
  | resources =>
    obtain ⟨m, hm, q, hq, hunits, hfull, -⟩ := Rule.names_resources_iff.1 h
    exact Nat.not_le.2 (Rule.length_borrowers_lt hs ht hless hm hq hspares hunits) hfull
  | prerequisites => exact Rule.not_names_prerequisites h
  | gradeRange => exact Rule.not_names_gradeRange h
  | teacherGroupCap =>
    obtain ⟨m, hm, teacher, hteacher, id, hid, hown, hload, -⟩ :=
      Rule.names_teacherGroupCap_iff.1 h
    exact Nat.not_le.2 hload (Rule.groupLoad_le hs ht hless hm hteacher hid hspares hown)
  | lunch =>
    obtain ⟨hcovers, teacher, hteacher, hall, ha, hlunch⟩ := Rule.names_lunch_iff.1 h
    have hsub := Rule.startsBeside_subset hs ht hless teacher
    refine hnot (Rule.names_lunch_iff.2
      ⟨hcovers, teacher, hteacher, fun l hl => ?_, hsub ha, hlunch⟩)
    obtain ⟨b, hb, hbl⟩ := hall l hl
    exact ⟨b, hsub hb, hbl⟩
  | locked => exact Rule.not_names_locked h

/-- **A fault that is not found is not found where less is placed**, other than of prerequisites. -/
theorem permits_of_holdsLess (hs : s.Coherent) (ht : t.Coherent) (hless : t.HoldsLess s c)
    (hkind : kind ≠ .prerequisites) (h : (kind.rule bounds pins seed).Permits s c) :
    (kind.rule bounds pins seed).Permits t c := by
  cases kind with
  | duplicateSections => exact Rule.permits_duplicateSections
  | teacherConflict => exact Rule.permits_teacherConflict
  | roomConflict => exact Rule.permits_roomConflict
  | resources => exact Rule.permits_resources_iff.2 (Rule.permits_resources_iff.1 h)
  | teacherGroupCap =>
    exact Rule.permits_teacherGroupCap_iff.2 (Rule.permits_teacherGroupCap_iff.1 h)
  | lunch => exact Rule.permits_lunch_iff.2 (Rule.permits_lunch_iff.1 h)
  | locked => exact Rule.permits_locked_of_holdsLess hs ht hless h
  | prerequisites => exact absurd rfl hkind
  | localConflict | roomProperties | gradeRange => exact h

end RuleKind

end Timetable

import Mathlib.Data.List.Forall2
import Timetable.Proofs.Limits

/-!
# Lots name just enough

Two rules may have to choose who makes way for a candidate, and choose by lot.  That the lot is a
reordering is all that matters about it:

* If the units of a resource are all lent, as many borrowers are named as have to go for one unit to
  become free (`Rule.FreesUnit`).  They are the first of the lot.
* If a group would teach more than its cap, some of those who teach for it are named, so many that the
  cap is met without them, and the last of them was needed (`Rule.MeetsCap`).  They come from the end
  of the lot, one after the other; as some count for more than one, this is not the least number.

Neither rule asks the index of the sections.  Because the schedule is coherent, what they find in the
rooms are the starts that cover a slot, each of them once, so both facts are about the list of starts:
`Reachable.lots_name_enough`.
-/

set_option autoImplicit false

namespace Timetable

variable {p : Program} {book : Rulebook} {s : Schedule p} {c : Start}

/-! ## The conflicts that a rule reports -/

/-- The conflicts that the objections of a rule amount to. -/
def GlobalConflict.ofObjections (rule : String) (candidate : Candidate) (l : List Objection) :
    List GlobalConflict := l.filterMap fun o => Finding.globalConflict? ⟨rule, candidate, o⟩

/-- The clashes of a candidate with other starts that a rule reports. -/
def Rule.conflicts (r : Rule) (s : Schedule p) (c : Start) : List GlobalConflict :=
  GlobalConflict.ofObjections r.name (.run c) (r.onStart s c) ++
    (c.presents p).flatMap fun m =>
      GlobalConflict.ofObjections r.name (.moment m) (r.onPresent s m)

/-- What is reported is what the rules report. -/
theorem Rulebook.mem_globals_validate_iff {g : GlobalConflict} :
    g ∈ (book.validate s c).globals ↔ ∃ r ∈ book.rules, g ∈ r.conflicts s c := by
  simp only [validate, Report.ofFindings, startFindings, presentFindings, Rule.conflicts,
    GlobalConflict.ofObjections, List.mem_filterMap, List.mem_append, List.mem_flatMap, List.mem_map]
  constructor
  · rintro ⟨f, ⟨r, hr, o, ho, rfl⟩ | ⟨m, hm, r, hr, o, ho, rfl⟩, hf⟩
    · exact ⟨r, hr, .inl ⟨o, ho, hf⟩⟩
    · exact ⟨r, hr, .inr ⟨m, hm, o, ho, hf⟩⟩
  · rintro ⟨r, hr, ⟨o, ho, hf⟩ | ⟨m, hm, o, ho, hf⟩⟩
    · exact ⟨_, .inl ⟨r, hr, o, ho, rfl⟩, hf⟩
    · exact ⟨_, .inr ⟨m, hm, r, hr, o, ho, rfl⟩, hf⟩

namespace GlobalConflict

variable {rule text : String} {candidate : Candidate} {l : List Start}

/-- A clash with some starts is one conflict, which lists them. -/
theorem ofObjections_clash (hl : l ≠ []) : ofObjections rule candidate [.clash l text] =
    [⟨rule, candidate, distinct l, text⟩] := by
  cases l with
  | nil => exact absurd rfl hl
  | cons a l => rfl

/-- Starts that are named once each are listed as they are, up to the order. -/
theorem distinct_perm (hl : l.Nodup) : (distinct l).Perm l :=
  (List.perm_ext_iff_of_nodup (nodup_distinct l) hl).2 fun _ => mem_distinct

theorem ofObjections_eq_nil {os : List Objection} (h : ∀ o ∈ os, o.clashes = []) :
    ofObjections rule candidate os = [] := by
  refine List.filterMap_eq_nil_iff.2 fun o ho => ?_
  exact Finding.globalConflict?_eq_none_iff.2 (h o ho)

end GlobalConflict

/-! ## Lists that correspond -/

section Lists

variable {ι α β : Type} {R : α → β → Prop} {l : List ι}

theorem forall₂_flatMap {f : ι → List α} {g : ι → List β}
    (h : ∀ x ∈ l, List.Forall₂ R (f x) (g x)) : List.Forall₂ R (l.flatMap f) (l.flatMap g) := by
  induction l with
  | nil => exact .nil
  | cons x l ih =>
    rw [List.flatMap_cons, List.flatMap_cons]
    exact List.rel_append (h x List.mem_cons_self) (ih fun y hy => h y (List.mem_cons_of_mem x hy))

/-- The members with a property correspond to what is made of all members, if there is something
made of those only. -/
theorem forall₂_map_filter {P : ι → Bool} {f : ι → α} {g : ι → List β}
    (hpos : ∀ x ∈ l, P x = true → ∃ y, g x = [y] ∧ R (f x) y)
    (hneg : ∀ x ∈ l, P x = false → g x = []) :
    List.Forall₂ R ((l.filter P).map f) (l.flatMap g) := by
  induction l with
  | nil => exact .nil
  | cons x l ih =>
    have hrest := ih (fun y hy => hpos y (List.mem_cons_of_mem x hy))
      fun y hy => hneg y (List.mem_cons_of_mem x hy)
    rw [List.flatMap_cons]
    cases hx : P x with
    | true =>
      obtain ⟨y, hy, hR⟩ := hpos x List.mem_cons_self hx
      rw [List.filter_cons_of_pos hx, hy]
      exact .cons hR hrest
    | false =>
      rw [List.filter_cons_of_neg (by simp [hx]), hneg x List.mem_cons_self hx]
      exact hrest

end Lists

namespace Rule

variable {m : Present}

/-! ## Equipment -/

/-- The starts of other sections that borrow a resource in a period of a run. -/
def lentBeside (s : Schedule p) (m : Present) (q : ResourceId) : List Start :=
  s.starts.filter fun a => a.covers m.slot ∧ a.sectionId ≠ m.sectionId ∧
    q ∈ borrowed p a.sectionId a.roomId

theorem borrowers_perm (h : s.Coherent) (m : Present) (q : ResourceId) :
    (borrowers s m q).Perm (lentBeside s m q) := by
  refine (List.perm_ext_iff_of_nodup (nodup_borrowers h) (h.nodup_starts.filter _)).2 fun a => ?_
  rw [mem_borrowers_iff_holds h, List.mem_filter, h.mem_starts_iff, decide_eq_true_eq]

/-- The resources that a run borrows with their periods in which all units are lent already, unless
there are none. -/
def overdrawnPools (s : Schedule p) (c : Start) : List (Present × ResourceId) :=
  (c.presents p).flatMap fun m =>
    ((borrowed p m.sectionId m.roomId).filter fun q => (p.resource q).floating ≠ 0 ∧
      (p.resource q).floating < (lentBeside s m q).length + 1).map fun q => (m, q)

/-- The conflict names so many borrowers that without them a unit is free, and no more. -/
structure FreesUnit (s : Schedule p) (e : Present × ResourceId) (g : GlobalConflict) : Prop where
  rule : g.rule = RuleKind.resources.name
  candidate : g.candidate = .moment e.1
  explanation : g.explanation =
    s!"all {(p.resource e.2).floating} floating {e.2} are in use at {e.1.periodId}"
  nodup : g.clashes.Nodup
  subset : g.clashes ⊆ lentBeside s e.1 e.2
  length : g.clashes.length = (lentBeside s e.1 e.2).length + 1 - (p.resource e.2).floating

theorem exists_conflict_of_overdrawn (h : s.Coherent) {seed : UInt64} {q : ResourceId}
    (hunits : (p.resource q).floating ≠ 0)
    (hfull : (p.resource q).floating < (lentBeside s m q).length + 1) :
    ∃ g, GlobalConflict.ofObjections RuleKind.resources.name (.moment m)
        (poolObjections seed s m q) = [g] ∧ FreesUnit s (m, q) g := by
  have hlength := (borrowers_perm h m q).length_eq
  have hlot := drawLots_perm (lot seed m q.val) (borrowers s m q)
  rw [poolObjections, if_neg (by omega), if_neg hunits]
  generalize hnamed : (drawLots (lot seed m q.val) (borrowers s m q)).take
    ((borrowers s m q).length + 1 - (p.resource q).floating) = named
  have hnamedLength : named.length = (lentBeside s m q).length + 1 - (p.resource q).floating := by
    rw [← hnamed, List.length_take, hlot.length_eq, hlength]
    omega
  have hnodup : named.Nodup := by
    rw [← hnamed]
    exact (List.take_sublist _ _).nodup (hlot.nodup_iff.2 (nodup_borrowers h))
  refine ⟨_, GlobalConflict.ofObjections_clash (List.length_pos_iff.1 (by omega)), rfl, rfl, rfl,
    nodup_distinct named, fun a ha => ?_, ?_⟩
  · rw [mem_distinct, ← hnamed] at ha
    exact (borrowers_perm h m q).mem_iff.1 (hlot.mem_iff.1 (List.mem_of_mem_take ha))
  · exact (GlobalConflict.distinct_perm hnodup).length_eq.trans hnamedLength

theorem no_conflict_of_not_overdrawn (h : s.Coherent) {seed : UInt64} {q : ResourceId}
    (hleft : ¬ ((p.resource q).floating ≠ 0 ∧
      (p.resource q).floating < (lentBeside s m q).length + 1)) :
    GlobalConflict.ofObjections RuleKind.resources.name (.moment m) (poolObjections seed s m q) =
      [] := by
  have hlength := (borrowers_perm h m q).length_eq
  rw [poolObjections]
  split
  · rfl
  · split
    · rfl
    · omega

/-- **For every overdrawn pool borrowers are named, and for no other.** -/
theorem forall₂_conflicts_resources (h : s.Coherent) (c : Start) (seed : UInt64) :
    List.Forall₂ (FreesUnit s) (overdrawnPools s c) ((resources seed).conflicts s c) := by
  have hstart : ∀ o ∈ (resources seed).onStart s c, o.clashes = [] := by
    intro o ho
    obtain ⟨q, -, rfl⟩ := List.mem_map.1 ho
    rfl
  rw [conflicts, GlobalConflict.ofObjections_eq_nil hstart, List.nil_append]
  refine forall₂_flatMap fun m hm => ?_
  rw [resources, GlobalConflict.ofObjections, List.filterMap_flatMap]
  refine forall₂_map_filter (fun q _ hq => ?_) fun q _ hq => ?_
  · obtain ⟨hunits, hfull⟩ := of_decide_eq_true hq
    exact exists_conflict_of_overdrawn h hunits hfull
  · exact no_conflict_of_not_overdrawn h (of_decide_eq_false hq)

/-! ## Caps of teacher groups -/

/-- The number of teachers of a group that would be teaching in a period of a run, if some starts
were gone. -/
def loadWithout (s : Schedule p) (m : Present) (g : TeacherGroup) (gone : List Start) : Nat :=
  members p g m.sectionId +
    groupTeaching p (s.starts.filter fun a => a.sectionId ≠ m.sectionId ∧ a ∉ gone) m.slot g

theorem loadWithout_eq (h : s.Coherent) (m : Present) (g : TeacherGroup) (gone : List Start) :
    loadWithout s m g gone = members p g m.sectionId +
      total (((groupStarts s m g).filter (·.1 ∉ gone)).map (·.2)) := by
  have hperm : ((s.starts.filter fun a => a.sectionId ≠ m.sectionId ∧ a ∉ gone).filter
      (·.covers m.slot)).Perm (((s.occurring m.slot).filter fun o =>
        o.sectionId ≠ m.sectionId ∧ o.start ∉ gone).map (·.start)) := by
    rw [List.filter_comm]
    refine ((h.occurring_perm m.slot).symm.filter _).trans ?_
    rw [List.filter_map]
    exact .refl _
  rw [loadWithout, groupTeaching, total_eq_of_perm (hperm.map _), groupStarts, List.filter_comm,
    total_filter_pos, List.filter_map, List.filter_filter, List.map_map, List.map_map]
  congr 3
  refine List.filter_congr fun o _ => ?_
  simp [and_comm]

/-- The caps of teacher groups that a run would exceed with their periods, unless its section does
so alone. -/
def exceededGroups (s : Schedule p) (c : Start) : List (Present × GroupId) :=
  (c.presents p).flatMap fun m =>
    ((distinct ((p.teachersOf m.sectionId).flatMap p.groupsOf)).filter fun id =>
      members p (p.group id) m.sectionId ≤ (p.group id).cap ∧
        (p.group id).cap < loadWithout s m (p.group id) []).map fun id => (m, id)

/-- The conflict names starts of other sections that teach for a group, without which the cap is met,
and one of them at least could not have been left out. -/
structure MeetsCap (s : Schedule p) (e : Present × GroupId) (g : GlobalConflict) : Prop where
  rule : g.rule = RuleKind.teacherGroupCap.name
  candidate : g.candidate = .moment e.1
  explanation : g.explanation =
    s!"{(p.group e.2).name} would exceed its cap of {(p.group e.2).cap} at {e.1.periodId}"
  nodup : g.clashes.Nodup
  of_mem : ∀ a ∈ g.clashes, a ∈ s.starts ∧ a.covers e.1.slot ∧ a.sectionId ≠ e.1.sectionId ∧
    0 < members p (p.group e.2) a.sectionId
  load_le : loadWithout s e.1 (p.group e.2) g.clashes ≤ (p.group e.2).cap
  needed : ∃ a ∈ g.clashes, (p.group e.2).cap <
    loadWithout s e.1 (p.group e.2) (g.clashes.filter (· ≠ a))

theorem groupLoad_eq_loadWithout (h : s.Coherent) (m : Present) (g : TeacherGroup) :
    groupLoad s m g = loadWithout s m g [] := by
  rw [loadWithout_eq h, List.filter_eq_self.2 fun e _ => by simp]
  rfl

/-- Those named are the starts that were dropped, whatever they count for. -/
theorem mem_distinct_map_fst {a : Start} {l : List (Start × Nat)} :
    a ∈ distinct (l.map (·.1)) ↔ ∃ n, (a, n) ∈ l := by
  rw [mem_distinct, List.mem_map, Prod.exists]
  simp

/-- The load without some of the starts that teach for a group is that of the others. -/
theorem loadWithout_of_append (h : s.Coherent) {g : TeacherGroup} {gone kept : List (Start × Nat)}
    (hperm : (groupStarts s m g).Perm (gone ++ kept)) {named : List Start}
    (hnamed : ∀ a, a ∈ named ↔ ∃ n, (a, n) ∈ gone) :
    loadWithout s m g named = members p g m.sectionId + total (kept.map (·.2)) := by
  have hnodup : ((gone ++ kept).map (·.1)).Nodup :=
    (hperm.map _).nodup_iff.1 (nodup_fst_groupStarts h)
  rw [List.map_append, List.nodup_append] at hnodup
  have hgone : ∀ e ∈ gone, ¬ e.1 ∉ named := fun e he => not_not.2 ((hnamed e.1).2 ⟨e.2, he⟩)
  have hkept : ∀ e ∈ kept, e.1 ∉ named := by
    intro e he hmem
    obtain ⟨n, hn⟩ := (hnamed e.1).1 hmem
    exact hnodup.2.2 e.1 (List.mem_map.2 ⟨_, hn, rfl⟩) e.1 (List.mem_map_of_mem he) rfl
  rw [loadWithout_eq h, total_eq_of_perm ((hperm.filter _).map _), List.filter_append,
    List.filter_eq_nil_iff.2 fun e he => by simpa using hgone e he,
    List.filter_eq_self.2 fun e he => by simpa using hkept e he, List.nil_append]

/-- Of the starts that are gone the last one counts, if it is the only one to come back. -/
theorem loadWithout_filter_ne (h : s.Coherent) {g : TeacherGroup} {before kept : List (Start × Nat)}
    {last : Start × Nat} (hperm : (groupStarts s m g).Perm (before ++ last :: kept))
    {named : List Start} (hnamed : ∀ a, a ∈ named ↔ ∃ n, (a, n) ∈ before ++ [last]) :
    loadWithout s m g (named.filter (· ≠ last.1)) =
      members p g m.sectionId + total ((last :: kept).map (·.2)) := by
  have hnodup : ((before ++ last :: kept).map (·.1)).Nodup :=
    (hperm.map _).nodup_iff.1 (nodup_fst_groupStarts h)
  rw [List.map_append, List.nodup_append] at hnodup
  refine loadWithout_of_append h hperm fun a => ?_
  rw [List.mem_filter, hnamed, decide_eq_true_eq]
  constructor
  · rintro ⟨⟨n, hn⟩, hne⟩
    rcases List.mem_append.1 hn with hn | hn
    · exact ⟨n, hn⟩
    · exact absurd (congrArg Prod.fst (List.mem_singleton.1 hn)) hne
  · rintro ⟨n, hn⟩
    exact ⟨⟨n, List.mem_append_left _ hn⟩,
      hnodup.2.2 a (List.mem_map.2 ⟨_, hn, rfl⟩) last.1 List.mem_cons_self⟩

/-- **To name those who were dropped meets the cap**, if the others are within the cap and would not
be with the one that was dropped last. -/
theorem meetsCap_of_dropped (h : s.Coherent) {id : GroupId} {dropped kept : List (Start × Nat)}
    (hperm : (groupStarts s m (p.group id)).Perm (dropped ++ kept)) (hne : dropped ≠ [])
    (hkept : members p (p.group id) m.sectionId + total (kept.map (·.2)) ≤ (p.group id).cap)
    (hlast : ∀ before e, dropped = before ++ [e] → (p.group id).cap <
      members p (p.group id) m.sectionId + total ((e :: kept).map (·.2))) :
    MeetsCap s (m, id) ⟨RuleKind.teacherGroupCap.name, .moment m, distinct (dropped.map (·.1)),
      s!"{(p.group id).name} would exceed its cap of {(p.group id).cap} at {m.periodId}"⟩ where
  rule := rfl
  candidate := rfl
  explanation := rfl
  nodup := nodup_distinct _
  of_mem a ha := by
    obtain ⟨⟨b, n⟩, hmem, rfl⟩ := List.mem_map.1 (mem_distinct.1 ha)
    obtain ⟨hholds, hcovers, hsection, rfl, hpos⟩ := (mem_groupStarts_iff_holds h).1
      (hperm.mem_iff.2 (List.mem_append_left kept hmem))
    exact ⟨h.mem_starts_iff.2 hholds, hcovers, hsection, hpos⟩
  load_le := by
    rw [loadWithout_of_append h hperm fun _ => mem_distinct_map_fst]
    exact hkept
  needed := by
    obtain ⟨before, last, rfl⟩ := (List.eq_nil_or_concat' dropped).resolve_left hne
    rw [List.append_assoc, List.singleton_append] at hperm
    refine ⟨last.1, by simp [mem_distinct], ?_⟩
    rw [loadWithout_filter_ne h hperm fun _ => mem_distinct_map_fst]
    exact hlast before last rfl

theorem exists_conflict_of_exceeded (h : s.Coherent) {seed : UInt64} {id : GroupId}
    (hown : members p (p.group id) m.sectionId ≤ (p.group id).cap)
    (hload : (p.group id).cap < loadWithout s m (p.group id) []) :
    ∃ g, GlobalConflict.ofObjections RuleKind.teacherGroupCap.name (.moment m)
        (capObjections seed s m id) = [g] ∧ MeetsCap s (m, id) g := by
  rw [← groupLoad_eq_loadWithout h] at hload
  have hlot := (drawLots_perm (lot seed m id.val) (groupStarts s m (p.group id))).symm.trans
    (List.reverse_perm _).symm
  obtain ⟨dropped, kept, hl, hshed, hkept, hlast⟩ := exists_shed_eq hown
    (drawLots (lot seed m id.val) (groupStarts s m (p.group id))).reverse
  rw [← total_eq_of_perm (hlot.map _)] at hshed
  rw [hl] at hlot
  -- nobody would have to go if the load were within the cap
  have hne : dropped ≠ [] := by
    rintro rfl
    rw [List.nil_append] at hlot
    rw [groupLoad, total_eq_of_perm (hlot.map _)] at hload
    omega
  have hobjections : capObjections seed s m id = [.clash (dropped.map (·.1))
      s!"{(p.group id).name} would exceed its cap of {(p.group id).cap} at {m.periodId}"] := by
    rw [capObjections_eq]
    simp only
    rw [if_neg (Nat.not_lt.2 hown), if_neg (Nat.not_le.2 hload), groupLoad, hshed]
  rw [hobjections]
  exact ⟨_, GlobalConflict.ofObjections_clash (mt List.map_eq_nil_iff.1 hne),
    meetsCap_of_dropped h hlot hne hkept hlast⟩

theorem no_conflict_of_not_exceeded (h : s.Coherent) {seed : UInt64} {id : GroupId}
    (hwithin : ¬ (members p (p.group id) m.sectionId ≤ (p.group id).cap ∧
      (p.group id).cap < loadWithout s m (p.group id) [])) :
    GlobalConflict.ofObjections RuleKind.teacherGroupCap.name (.moment m)
      (capObjections seed s m id) = [] := by
  rw [← groupLoad_eq_loadWithout h] at hwithin
  rw [capObjections_eq]
  simp only
  split
  · rfl
  · split
    · rfl
    · omega

/-- **For every cap that would be exceeded some who teach for the group are named, and for no
other.** -/
theorem forall₂_conflicts_teacherGroupCap (h : s.Coherent) (c : Start) (seed : UInt64) :
    List.Forall₂ (MeetsCap s) (exceededGroups s c) ((teacherGroupCap seed).conflicts s c) := by
  refine forall₂_flatMap fun m hm => ?_
  rw [teacherGroupCap, GlobalConflict.ofObjections, List.filterMap_flatMap]
  refine forall₂_map_filter (fun id _ hid => ?_) fun id _ hid => ?_
  · obtain ⟨hown, hload⟩ := of_decide_eq_true hid
    exact exists_conflict_of_exceeded h hown hload
  · exact no_conflict_of_not_exceeded h (of_decide_eq_false hid)

end Rule

/-- **Lots name just enough.**  What the two rules that draw lots report are conflicts of overdrawn
pools and of exceeded caps, one for each.  A conflict of the first kind names so many borrowers that
one unit becomes free.  One of the second kind names some who teach for the group, without whom the
cap is met, and not all of whom could be left out. -/
theorem Reachable.lots_name_enough (hnames : book.NamesPlaced p)
    (hdup : .duplicateSections ∈ book.rules) (hroom : .roomConflict ∈ book.rules)
    (h : Reachable book s) (c : Start) :
    (∀ g, g ∈ (book.validate s c).globals ↔ ∃ r ∈ book.rules, g ∈ r.conflicts s c) ∧
    ∀ seed, List.Forall₂ (Rule.FreesUnit s) (Rule.overdrawnPools s c)
        ((Rule.resources seed).conflicts s c) ∧
      List.Forall₂ (Rule.MeetsCap s) (Rule.exceededGroups s c)
        ((Rule.teacherGroupCap seed).conflicts s c) := by
  have hs := (h.edits_of_namesPlaced hdup hroom hnames).coherent hdup hroom .empty
  exact ⟨fun g => Rulebook.mem_globals_validate_iff, fun seed =>
    ⟨Rule.forall₂_conflicts_resources hs c seed, Rule.forall₂_conflicts_teacherGroupCap hs c seed⟩⟩

/-- With the only unit lent, and with the group at its cap, whoever is placed has to go. -/
theorem lots_name_enough_held :
    (∃ g, (Rule.resources 0).conflicts Contested.held Contested.borrower = [g] ∧
      g.clashes = [Contested.pinnedStart]) ∧
    ∃ g, (Rule.teacherGroupCap 0).conflicts Contested.held Contested.colleague = [g] ∧
      g.clashes = [Contested.pinnedStart] := by
  have hlots := Reachable.lots_name_enough (Contested.isBuiltIn_bookWith .resources).namesPlaced
    (Contested.duplicateSections_mem .resources) (Contested.roomConflict_mem .resources)
    (Contested.reachable_held _)
  have honly {l : List Start} (hnodup : l.Nodup) (hsub : l ⊆ [Contested.pinnedStart])
      (hne : l ≠ []) : l = [Contested.pinnedStart] :=
    List.perm_singleton.1 ((List.subperm_of_subset hnodup hsub).perm_of_length_le
      (List.length_pos_iff.2 hne))
  constructor
  · have hpools : Rule.overdrawnPools Contested.held Contested.borrower =
        [(⟨Contested.borrower, 0, ⟨1⟩⟩, ⟨1⟩)] := by
      decide +kernel
    have hlent : Rule.lentBeside Contested.held ⟨Contested.borrower, 0, ⟨1⟩⟩ ⟨1⟩ =
        [Contested.pinnedStart] := by
      decide +kernel
    have hreported := ((hlots Contested.borrower).2 0).1
    rw [hpools] at hreported
    obtain ⟨g, rest, hg, hrest, hconflicts⟩ := List.forall₂_cons_left_iff.1 hreported
    cases List.forall₂_nil_left_iff.1 hrest
    have hlength := hg.length
    have hsub := hg.subset
    rw [hlent] at hlength hsub
    exact ⟨g, hconflicts, honly hg.nodup hsub (List.length_pos_iff.1 (by rw [hlength]; decide))⟩
  · have hgroups : Rule.exceededGroups Contested.held Contested.colleague =
        [(⟨Contested.colleague, 0, ⟨1⟩⟩, ⟨1⟩)] := by
      decide +kernel
    have hreported := ((hlots Contested.colleague).2 0).2
    rw [hgroups] at hreported
    obtain ⟨g, rest, hg, hrest, hconflicts⟩ := List.forall₂_cons_left_iff.1 hreported
    cases List.forall₂_nil_left_iff.1 hrest
    obtain ⟨a, ha, -⟩ := hg.needed
    exact ⟨g, hconflicts, honly hg.nodup (fun a ha => (hg.of_mem a ha).1) (List.ne_nil_of_mem ha)⟩

end Timetable

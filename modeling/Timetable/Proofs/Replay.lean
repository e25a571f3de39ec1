import Timetable.Proofs.Booking
import Timetable.Proofs.Law

/-!
# Building a schedule up again

If nothing is pinned, the laws of the rules hold of every schedule that can be reached: they hold when
a start is added, because it was valid, and they are kept when one is taken out (`Edits.lawsHold`).
Conversely a start is accepted wherever the laws hold with it.  So the starts of a schedule can be
placed again one after the other, in any order, and none is refused on the way.

The one rule without a law is that of prerequisites, for which the order does matter: a start has to
come after those that it builds on (`MetInOrder`).  The order of time is such an order, if there is
one at all.

* Without the rule of prerequisites, any order of the starts leads back to the schedule:
  `Reachable.replay_any_order`.
* With it, the schedule can be built up again in the order of time exactly if every start has its
  prerequisites in the schedule as it is: `Rulebook.isCompletelyValid_iff_met`.  Operations do not
  see to that, and it is the only thing that they leave open: `Reachable.conflicts_by_prerequisites`.
-/

set_option autoImplicit false

namespace Timetable

variable {p : Program} {book : Rulebook} {s t : Schedule p} {c a : Start}

/-! ## Schedules with the same starts -/

/-- Starts that are the same up to order are the same, as they are listed by their sections. -/
theorem Schedule.Coherent.starts_eq_of_perm (hs : s.Coherent) (ht : t.Coherent)
    (h : s.starts.Perm t.starts) : s.starts = t.starts := by
  refine congrArg (List.map Prod.snd) ?_
  refine OrderedMap.toList_eq_of_get?_eq hs.sections ht.sections fun id => Option.ext fun a => ?_
  change s.startOf? id = some a ↔ t.startOf? id = some a
  rw [hs.startOf?_eq_some_iff, ht.startOf?_eq_some_iff, ← hs.mem_starts_iff, ← ht.mem_starts_iff,
    h.mem_iff]

/-! ## Laws of reachable schedules -/

namespace Rulebook

/-- The laws of all rules hold of a list of starts. -/
def LawsHold (book : Rulebook) (p : Program) (l : List Start) : Prop :=
  ∀ r ∈ book.rules, ∀ P, r.HasLaw p P → P l

theorem LawsHold.mono {l m : List Start} (hlm : l.Subperm m) (hm : book.LawsHold p m) :
    book.LawsHold p l := fun r hr P hP => hP.mono hlm (hm r hr P hP)

theorem IsUnpinned.pins_holds (hbook : book.IsUnpinned) (c : Start) :
    book.pins.holds c = false := by
  rw [hbook.pins]
  rfl

/-- Without pins a start is valid if all rules accept it. -/
theorem IsUnpinned.isValid_validate_iff (hbook : book.IsUnpinned) :
    (book.validate s c).isValid ↔ ∀ r ∈ book.rules, r.Accepts s c := by
  rw [Rulebook.isValid_validate_iff, hbook.pins_holds]
  constructor
  · rintro ⟨hlocal, hglobal⟩ r hr
    exact ⟨hlocal.resolve_left Bool.false_ne_true r hr, hglobal r hr⟩
  · intro h
    exact ⟨.inr fun r hr => (h r hr).1, fun r hr => (h r hr).2⟩

/-- **Where the laws hold with a start, the rules that have one accept it.** -/
theorem LawsHold.accepts (hbook : book.IsUnpinned) (hs : s.Coherent) (hc : c.IsOf p)
    (hfresh : s.startOf? c.sectionId = none) (h : book.LawsHold p (c :: s.starts)) {r : Rule}
    (hr : r ∈ book.rules) (hne : r ≠ .prerequisites) : r.Accepts s c := by
  obtain ⟨kind, bounds, seed, rfl⟩ := hbook.rules r hr
  have hkind : kind ≠ .prerequisites := by
    rintro rfl
    exact hne rfl
  obtain ⟨P, hP⟩ := @RuleKind.exists_hasLaw p bounds seed kind hkind
  have hrest : P s.starts := hP.mono (List.sublist_cons_self _ _).subperm (h _ hr P hP)
  exact (hP.accepts_iff hs hc hfresh hrest).2 (h _ hr P hP)

end Rulebook

/-- **The law of a rule that finds no fault with pinned starts holds of whatever edits lead to.** -/
theorem Edits.law (hdup : .duplicateSections ∈ book.rules) (hroom : .roomConflict ∈ book.rules)
    {r : Rule} (hr : r ∈ book.rules) {P : List Start → Prop} (hP : r.HasLaw p P)
    (hpinned : ∀ {t : Schedule p} {c : Start}, c.IsOf p → book.pins.holds c → r.Permits t c)
    (h : Edits book (.empty p) s) : P s.starts := by
  refine Edits.invariant hdup hroom hP.nil hP.mono (fun {t c} ht hc hfresh hv hrest => ?_) h
  obtain ⟨hlocal, hglobal⟩ := Rulebook.isValid_validate_iff.1 hv
  have hpermits : r.Permits t c := hlocal.elim (hpinned hc) fun h => h r hr
  exact (hP.accepts_iff ht hc hfresh hrest).1 ⟨hpermits, hglobal r hr⟩

/-- **Without pins all laws hold of whatever edits lead to.** -/
theorem Edits.lawsHold (hbook : book.IsUnpinned) (hdup : .duplicateSections ∈ book.rules)
    (hroom : .roomConflict ∈ book.rules) (h : Edits book (.empty p) s) :
    book.LawsHold p s.starts := by
  refine fun r hr P hP => h.law hdup hroom hr hP fun {t c} _ hpin => ?_
  rw [hbook.pins_holds] at hpin
  cases hpin

/-- **A start that is placed where the laws hold has nothing against it but prerequisites.** -/
theorem Rulebook.LawsHold.conflicts_of_placed (hbook : book.IsUnpinned) (hs : s.Coherent)
    (hlaws : book.LawsHold p s.starts) (ha : s.Holds a) :
    (book.validate (s.remove a) a).globals = [] ∧
      ∀ conflict ∈ (book.validate (s.remove a) a).locals,
        conflict.rule = RuleKind.prerequisites.name := by
  have hfresh : (s.remove a).startOf? a.sectionId = none := by
    rw [hs.startOf?_remove, if_pos rfl]
  have haccepts : ∀ r ∈ book.rules, r ≠ .prerequisites → r.Accepts (s.remove a) a := fun r hr =>
    (hlaws.mono (hs.starts_remove ha).symm.subperm).accepts hbook (hs.remove ha)
      (hs.isOf_of_holds ha) hfresh hr
  refine ⟨Rulebook.globals_validate_eq_nil_iff.2 fun r hr b hb => ?_, fun conflict hconf => ?_⟩
  · by_cases hpre : r = .prerequisites
    · subst hpre
      exact Rule.not_names_prerequisites hb
    · exact (haccepts r hr hpre).2 b hb
  · obtain ⟨r, hr, hname, hpermits⟩ := Rulebook.exists_rule_of_mem_locals hconf
    by_cases hpre : r = .prerequisites
    · rw [← hname, hpre]
      rfl
    · exact absurd (haccepts r hr hpre).1 hpermits

/-! ## Prerequisites -/

/-- Of every prerequisite of a start some section is over before it, among the starts of a list. -/
def PrerequisitesMet (p : Program) (l : List Start) (c : Start) : Prop :=
  ∀ course ∈ (p.courseOf c.sectionId).prerequisiteIds,
    ∃ a ∈ l, a.sectionId ∈ p.sectionsOfCourse course ∧ a.lastSlot.precedes c.slot

/-- Every start of a list has its prerequisites among those before it and some placed already. -/
def MetInOrder (p : Program) : (placed : List Start) → List Start → Prop
  | _, [] => True
  | placed, c :: l => PrerequisitesMet p placed c ∧ MetInOrder p (c :: placed) l

theorem PrerequisitesMet.mono {l m : List Start} (hlm : l ⊆ m) (h : PrerequisitesMet p l c) :
    PrerequisitesMet p m c := fun course hcourse =>
  have ⟨a, ha, h⟩ := h course hcourse
  ⟨a, hlm ha, h⟩

theorem MetInOrder.mono {l placed placed' : List Start} (hsub : placed ⊆ placed')
    (h : MetInOrder p placed l) : MetInOrder p placed' l := by
  induction l generalizing placed placed' with
  | nil => exact trivial
  | cons c l ih => exact ⟨h.1.mono hsub, ih (List.cons_subset_cons c hsub) h.2⟩

/-- What is met in order is met in the end. -/
theorem MetInOrder.met {l placed : List Start} (h : MetInOrder p placed l) :
    ∀ c ∈ l, PrerequisitesMet p (l ++ placed) c := by
  induction l generalizing placed with
  | nil => exact fun c hc => absurd hc List.not_mem_nil
  | cons b l ih =>
    intro c hc
    rcases List.mem_cons.1 hc with rfl | hc
    · exact h.1.mono (List.subset_append_right _ _)
    · exact (ih h.2 c hc).mono List.perm_middle.subset

theorem Start.isLE_compare_slot {a b : Start} (h : (compare a b).isLE) :
    (compare a.slot b.slot).isLE := by
  rw [Start.compare_def, Start.rank, Start.rank, List.compare_cons_cons,
    Ordering.isLE_then_iff_or, Nat.compare_eq_lt, Nat.compare_eq_eq] at h
  refine Slot.isLE_compare_iff.2 (h.imp_right fun h => ⟨Id.ext h.1, ?_⟩)
  have hindex := h.2
  rw [List.compare_cons_cons, Ordering.isLE_then_iff_or, Nat.compare_eq_lt, Nat.compare_eq_eq]
    at hindex
  omega

/-- A run is not over before its first slot. -/
theorem Start.not_precedes_of_isLE {a c : Start} (h : (compare c.slot a.slot).isLE) :
    ¬ a.lastSlot.precedes c.slot := by
  intro hends
  have hrun : (compare a.slot a.lastSlot).isLE :=
    Slot.isLE_compare_iff.2 (.inr ⟨rfl, Nat.le_add_right _ _⟩)
  have hle := Std.TransCmp.isLE_trans h hrun
  rw [Std.OrientedCmp.gt_of_lt (Ordering.isLT_iff_eq_lt.1 hends)] at hle
  cases hle

/-- **The order of time meets all prerequisites that are met in the end.** -/
theorem metInOrder_of_pairwise {l placed : List Start}
    (hl : l.Pairwise fun a b => (compare a b).isLE)
    (h : ∀ c ∈ l, PrerequisitesMet p (l ++ placed) c) : MetInOrder p placed l := by
  induction l generalizing placed with
  | nil => exact trivial
  | cons c l ih =>
    obtain ⟨hc, hl⟩ := List.pairwise_cons.1 hl
    refine ⟨fun course hcourse => ?_, ih hl fun b hb => ?_⟩
    · -- what is over before `c` is neither `c` itself nor any start that comes after it
      obtain ⟨a, ha, hcourse, hends⟩ := h c List.mem_cons_self course hcourse
      refine ⟨a, ?_, hcourse, hends⟩
      rcases List.mem_append.1 ha with ha | ha
      · rcases List.mem_cons.1 ha with rfl | ha
        · exact absurd hends (Start.not_precedes_of_isLE Std.ReflCmp.isLE_rfl)
        · exact absurd hends (Start.not_precedes_of_isLE (Start.isLE_compare_slot (hc a ha)))
      · exact ha
    · exact (h b (List.mem_cons_of_mem c hb)).mono List.perm_middle.symm.subset

namespace Rule

theorem endsBefore_iff (h : s.Coherent) {course : CourseId} {slot : Slot} :
    endsBefore s course slot ↔
      ∃ a ∈ s.starts, a.sectionId ∈ p.sectionsOfCourse course ∧ a.lastSlot.precedes slot := by
  rw [endsBefore, List.any_eq_true]
  constructor
  · rintro ⟨id, hid, hends⟩
    cases ha : s.startOf? id with
    | none => simp [ha] at hends
    | some a =>
      rw [ha] at hends
      obtain ⟨-, rfl⟩ := h.isOf ha
      exact ⟨a, h.mem_starts_iff.2 ha, hid, hends⟩
  · rintro ⟨a, ha, hid, hends⟩
    refine ⟨a.sectionId, hid, ?_⟩
    rw [show s.startOf? a.sectionId = some a from h.mem_starts_iff.1 ha]
    exact hends

theorem accepts_prerequisites_iff : prerequisites.Accepts s c ↔
    ∀ course ∈ (p.courseOf c.sectionId).prerequisiteIds, endsBefore s course c.slot := by
  rw [accepts_iff_onStart fun m => rfl]
  constructor
  · intro h course hcourse
    exact forall_mem_require_isVoid_iff.1 fun o ho => h o (List.mem_flatMap.2 ⟨course, hcourse, ho⟩)
  · intro h o ho
    obtain ⟨course, hcourse, ho⟩ := List.mem_flatMap.1 ho
    exact forall_mem_require_isVoid_iff.2 (h course hcourse) o ho

theorem accepts_prerequisites_iff_met (h : s.Coherent) :
    prerequisites.Accepts s c ↔ PrerequisitesMet p s.starts c := by
  rw [accepts_prerequisites_iff]
  simp only [endsBefore_iff h, PrerequisitesMet]

end Rule

/-! ## Replaying -/

namespace Rulebook

/-- If nothing is pinned or marked, the placement order is the order of time. -/
theorem IsUnpinned.placementOrder_eq (hbook : book.IsUnpinned) (starts : List Start) :
    book.placementOrder (starts.map fun c => (false, c)) = sorted starts := by
  have hfree : ∀ e ∈ starts.map fun c => (false, c), book.isLocked e = false := by
    intro e he
    obtain ⟨c, -, rfl⟩ := List.mem_map.1 he
    exact hbook.pins_holds c
  rw [placementOrder_eq_append, List.filter_eq_nil_iff.2 fun e he => by simp [hfree e he],
    List.filter_eq_self.2 fun e he => by simp [hfree e he]]
  rw [List.map_nil, sorted, List.mergeSort_nil, List.nil_append, List.map_map]
  exact congrArg sorted (List.map_id starts)

section Replay

variable (hbook : book.IsUnpinned) (hdup : .duplicateSections ∈ book.rules)
  (hroom : .roomConflict ∈ book.rules)

include hbook hdup hroom

/-- **Starts that obey the laws can be placed one after the other.**  The order matters for
prerequisites only. -/
theorem exists_placeAll_eq_ok (ht : t.Coherent) {l : List Start} (hof : ∀ c ∈ l, c.IsOf p)
    (hnodup : ((l ++ t.starts).map (·.sectionId)).Nodup) (hlaws : book.LawsHold p (l ++ t.starts))
    (hmet : .prerequisites ∈ book.rules → MetInOrder p t.starts l) :
    ∃ u, book.placeAll t l = .ok u ∧ u.Coherent ∧ u.starts.Perm (l ++ t.starts) := by
  induction l generalizing t with
  | nil => exact ⟨t, rfl, ht, List.Perm.refl _⟩
  | cons c l ih =>
    have hc := hof c List.mem_cons_self
    have hfresh : t.startOf? c.sectionId = none := by
      refine ht.startOf?_eq_none fun a ha hid => ?_
      have hmem := List.mem_append_right l (ht.mem_starts_iff.2 ha)
      exact (List.nodup_cons.1 hnodup).1 (List.mem_map.2 ⟨a, hmem, hid⟩)
    have hv : (book.validate t c).isValid := by
      refine hbook.isValid_validate_iff.2 fun r hr => ?_
      have hsub : (c :: t.starts).Subperm (c :: (l ++ t.starts)) :=
        ((List.sublist_append_right l t.starts).cons_cons c).subperm
      by_cases hpre : r = .prerequisites
      · subst hpre
        exact (Rule.accepts_prerequisites_iff_met ht).2 (hmet hr).1
      · exact (hlaws.mono hsub).accepts hbook ht hc hfresh hr hpre
    have hperm := starts_add ht hdup hroom hc hv
    -- placing `c` moves it from the front of the list to the starts that are placed
    have hmove : (l ++ (t.add c).starts).Perm (c :: l ++ t.starts) :=
      (hperm.append_left l).trans List.perm_middle
    obtain ⟨u, hu, hcoh, hstarts⟩ := ih (coherent_add ht hdup hroom hc hv)
      (fun b hb => hof b (List.mem_cons_of_mem c hb)) ((hmove.map _).nodup_iff.2 hnodup)
      (hlaws.mono hmove.subperm) fun hpre => (hmet hpre).2.mono hperm.symm.subset
    exact ⟨u, (placeAll_cons_of_isValid hv).trans hu, hcoh, hstarts.trans hmove⟩

/-- Starts that are placed one after the other meet their prerequisites in order. -/
theorem metInOrder_of_placeAll (hpre : .prerequisites ∈ book.rules) (ht : t.Coherent)
    {l : List Start} (hof : ∀ c ∈ l, c.IsOf p) {u : Schedule p} (hu : book.placeAll t l = .ok u) :
    MetInOrder p t.starts l := by
  induction l generalizing t with
  | nil => exact trivial
  | cons c l ih =>
    have hc := hof c List.mem_cons_self
    by_cases hv : (book.validate t c).isValid
    · rw [placeAll_cons_of_isValid hv] at hu
      refine ⟨?_, ?_⟩
      · exact (Rule.accepts_prerequisites_iff_met ht).1 (hbook.isValid_validate_iff.1 hv _ hpre)
      · refine (ih (coherent_add ht hdup hroom hc hv)
          (fun b hb => hof b (List.mem_cons_of_mem c hb)) hu).mono ?_
        exact (starts_add ht hdup hroom hc hv).subset
    · rw [placeAll_cons_of_not_isValid hv] at hu
      cases hu

/-- **The starts of a schedule can be placed again in any order that meets their prerequisites.** -/
theorem exists_placeAll_starts (hs : s.Coherent) (hlaws : book.LawsHold p s.starts) {l : List Start}
    (hl : l.Perm s.starts) (hmet : .prerequisites ∈ book.rules → MetInOrder p [] l) :
    ∃ t, book.placeAll (.empty p) l = .ok t ∧ t.starts = s.starts := by
  have hl' : (l ++ (Schedule.empty p).starts).Perm s.starts := by
    rwa [show (Schedule.empty p).starts = [] from rfl, List.append_nil]
  have hof : ∀ c ∈ l, c.IsOf p := fun c hc => hs.isOf_of_mem_starts (hl.mem_iff.1 hc)
  obtain ⟨t, ht, hcoh, hperm⟩ := exists_placeAll_eq_ok hbook hdup hroom .empty hof
    ((hl'.map _).nodup_iff.2 hs.nodup_sectionIds) (hlaws.mono hl'.subperm) hmet
  exact ⟨t, ht, hcoh.starts_eq_of_perm hs (hperm.trans hl')⟩

end Replay

/-! ## Writing a schedule out and loading it -/

/-- Loading the triples of a schedule places its starts in the placement order. -/
theorem load_triples_eq (hs : s.Coherent) : book.load p (book.triples s) = book.placeAll (.empty p)
    (book.placementOrder (s.starts.map fun c => (book.pins.holds c, c))) := by
  have hresolve : (book.triples s).mapM (fun t => (t.resolve p).map fun c => (t.locked, c)) =
      .ok (s.starts.map fun c => (book.pins.holds c, c)) := by
    rw [triples, List.mapM_map]
    exact mapM_eq_ok fun c hc => congrArg (Except.map _) (hs.isOf_of_mem_starts hc)
  rw [load, hresolve]
  rfl

/-- If nothing is pinned, that is the order of time. -/
theorem load_triples (hbook : book.IsUnpinned) (hs : s.Coherent) :
    book.load p (book.triples s) = book.placeAll (.empty p) (sorted s.starts) := by
  simp only [load_triples_eq hs, hbook.pins_holds, hbook.placementOrder_eq]

/-! ## Complete validity -/

theorem isCompletelyValid_iff_exists (hbook : book.IsUnpinned) :
    book.isCompletelyValid s ↔ ∃ t, book.placeAll (.empty p) (sorted s.starts) = .ok t := by
  rw [isCompletelyValid, hbook.placementOrder_eq]
  cases book.placeAll (.empty p) (sorted s.starts) with
  | error e => simp [Except.toOption]
  | ok t => simp [Except.toOption]

/-- **A schedule for which the laws hold is completely valid if it has what its starts build on.** -/
theorem isCompletelyValid_iff_met (hbook : book.IsUnpinned) (hdup : .duplicateSections ∈ book.rules)
    (hroom : .roomConflict ∈ book.rules) (hs : s.Coherent) (hlaws : book.LawsHold p s.starts) :
    book.isCompletelyValid s ↔
      (.prerequisites ∈ book.rules → ∀ c ∈ s.starts, PrerequisitesMet p s.starts c) := by
  have hperm : (sorted s.starts).Perm s.starts := sorted_perm _
  -- nothing is placed at the outset, so a start has to build on those of the list
  have hempty : (Schedule.empty p).starts = [] := rfl
  rw [isCompletelyValid_iff_exists hbook]
  constructor
  · rintro ⟨t, ht⟩ hpre c hc
    have hmet := metInOrder_of_placeAll hbook hdup hroom hpre .empty
      (fun b hb => hs.isOf_of_mem_starts (hperm.mem_iff.1 hb)) ht
    refine (hmet.met c (hperm.mem_iff.2 hc)).mono ?_
    rw [hempty, List.append_nil]
    exact hperm.subset
  · intro hmet
    obtain ⟨t, ht, -⟩ := exists_placeAll_starts hbook hdup hroom hs hlaws hperm fun hpre =>
      metInOrder_of_pairwise (pairwise_sorted _) fun c hc => by
        rw [List.append_nil]
        exact (hmet hpre c (hperm.mem_iff.1 hc)).mono hperm.symm.subset
    exact ⟨t, ht⟩

end Rulebook

/-! ## Schedules that can be reached -/

/-- **The starts of a schedule that can be reached may be placed again in any order.**  In particular
the schedule is completely valid, and it is what loading its triples leads to. -/
theorem Reachable.replay_any_order (hbook : book.IsUnpinned)
    (hdup : .duplicateSections ∈ book.rules) (hroom : .roomConflict ∈ book.rules)
    (hpre : .prerequisites ∉ book.rules) (h : Reachable book s) :
    (∀ l : List Start, l.Perm s.starts →
      ∃ t, book.placeAll (.empty p) l = .ok t ∧ t.starts = s.starts) ∧
    book.isCompletelyValid s = true ∧
    ∃ t, book.load p (book.triples s) = .ok t ∧ book.triples t = book.triples s := by
  have hs := h.coherent hdup hroom hbook.isBuiltIn
  have hlaws := (h.edits hdup hroom hbook.isBuiltIn).lawsHold hbook hdup hroom
  have hreplay : ∀ l : List Start, l.Perm s.starts →
      ∃ t, book.placeAll (.empty p) l = .ok t ∧ t.starts = s.starts := fun l hl =>
    Rulebook.exists_placeAll_starts hbook hdup hroom hs hlaws hl fun hmem => absurd hmem hpre
  obtain ⟨t, ht, hstarts⟩ := hreplay (sorted s.starts) (List.mergeSort_perm _ _)
  refine ⟨hreplay, (Rulebook.isCompletelyValid_iff_exists hbook).2 ⟨t, ht⟩, t, ?_, ?_⟩
  · exact (Rulebook.load_triples hbook hs).trans ht
  · rw [Rulebook.triples, hstarts]
    rfl

theorem replay_any_order_bothPlaced :
    .prerequisites ∉ (Sequel.bookOf []).rules ∧
    (∀ l : List Start, l.Perm [Sequel.first, Sequel.second] →
      ∃ t : Schedule Sequel.program, (Sequel.bookOf []).placeAll (.empty _) l = .ok t ∧
        t.starts = [Sequel.first, Sequel.second]) ∧
    (Sequel.bookOf []).isCompletelyValid (Sequel.bothPlaced (Sequel.bookOf [])) = true := by
  have hpre : .prerequisites ∉ (Sequel.bookOf []).rules := fun hmem =>
    absurd (@RuleConfig.mem_of_rule_mem _ .prerequisites {} .none 0 hmem) (by decide)
  have hstarts : (Sequel.bothPlaced (Sequel.bookOf [])).starts = [Sequel.first, Sequel.second] := by
    decide +kernel
  obtain ⟨hreplay, hvalid, -⟩ := Reachable.replay_any_order (Sequel.isUnpinned_bookOf [])
    (Sequel.duplicateSections_mem []) (Sequel.roomConflict_mem []) hpre
    (Sequel.reaches_bothPlaced (Sequel.bookOf []) trivial trivial)
  rw [hstarts] at hreplay
  exact ⟨hpre, hreplay, hvalid⟩

/-- **Of all rules only that of prerequisites may have something against a start that is placed, and
the schedule is completely valid if it does not.** -/
theorem Reachable.conflicts_by_prerequisites (hbook : book.IsUnpinned)
    (hdup : .duplicateSections ∈ book.rules) (hroom : .roomConflict ∈ book.rules)
    (h : Reachable book s) :
    (∀ a ∈ s.starts, (book.validate (s.remove a) a).globals = [] ∧
      ∀ conflict ∈ (book.validate (s.remove a) a).locals,
        conflict.rule = RuleKind.prerequisites.name) ∧
    (book.isCompletelyValid s = true ↔ (.prerequisites ∈ book.rules → ∀ c ∈ s.starts,
      ∀ course ∈ (p.courseOf c.sectionId).prerequisiteIds,
        Rule.endsBefore s course c.slot = true)) := by
  have hs := h.coherent hdup hroom hbook.isBuiltIn
  have hlaws := (h.edits hdup hroom hbook.isBuiltIn).lawsHold hbook hdup hroom
  refine ⟨fun a ha => hlaws.conflicts_of_placed hbook hs (hs.mem_starts_iff.1 ha), ?_⟩
  simp only [Rule.endsBefore_iff hs]
  exact Rulebook.isCompletelyValid_iff_met hbook hdup hroom hs hlaws

theorem conflicts_by_prerequisites_bothPlaced :
    (∀ a ∈ [Sequel.first, Sequel.second],
      ((Sequel.bookOf [.prerequisites]).validate
        ((Sequel.bothPlaced (Sequel.bookOf [.prerequisites])).remove a) a).globals = []) ∧
    (Sequel.bookOf [.prerequisites]).isCompletelyValid
      (Sequel.bothPlaced (Sequel.bookOf [.prerequisites])) = true := by
  obtain ⟨hrest, hvalid⟩ := Reachable.conflicts_by_prerequisites
    (Sequel.isUnpinned_bookOf [.prerequisites]) (Sequel.duplicateSections_mem _)
    (Sequel.roomConflict_mem _)
    (Sequel.reaches_bothPlaced (Sequel.bookOf [.prerequisites]) trivial trivial)
  have hstarts : (Sequel.bothPlaced (Sequel.bookOf [.prerequisites])).starts =
      [Sequel.first, Sequel.second] := by
    decide +kernel
  rw [hstarts] at hrest hvalid
  exact ⟨fun a ha => (hrest a ha).1, hvalid.2 fun _ => by decide +kernel⟩

/-- Taking out the first of two courses leaves the second one behind without what it builds on. -/
theorem not_isCompletelyValid_orphaned : ¬ ∀ (p : Program) (book : Rulebook) (s : Schedule p),
    book.IsUnpinned → .duplicateSections ∈ book.rules → .roomConflict ∈ book.rules →
      Reaches book (fun op => op.isLoad = false) (.empty p) s → book.isCompletelyValid s = true := by
  intro h
  let book := Sequel.bookOf [.prerequisites]
  have hreach : Reaches book (fun op => op.isLoad = false) (.empty Sequel.program)
      ((Sequel.bothPlaced book).removeSection ⟨1⟩).2 :=
    @Reaches.step _ _ _ _ _ _ (.removeSection ⟨1⟩) (Sequel.reaches_bothPlaced book rfl rfl) rfl rfl
  have hvalid := h _ _ _ (Sequel.isUnpinned_bookOf _) (Sequel.duplicateSections_mem _)
    (Sequel.roomConflict_mem _) hreach
  have hinvalid : book.isCompletelyValid ((Sequel.bothPlaced book).removeSection ⟨1⟩).2 = false := by
    decide +kernel
  rw [hinvalid] at hvalid
  cases hvalid

end Timetable

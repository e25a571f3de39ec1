import Timetable.Config
import Timetable.Proofs.Rule

/-!
# What validation says, and what placing does

The report on a start sums up the answers of the rules:

* `isLocallyValid_validate_iff`: no rule finds a fault, or the start is where its section is pinned;
* `mem_evictions_validate_iff`: the starts to be evicted are those that some rule names;
* `isValid_validate_iff`: both lists are empty.

With this the two ways to place a start are described without reports.  `assign_cases` and
`force_cases` say that either nothing happens, or the evictions, if any, are taken out and the start
is added to a schedule in which it is valid.

`Rulebook.IsBuiltIn` says that all rules are among those that can be configured, `IsUnpinned` that
nothing is pinned on top of that; the rulebook of a configuration is of this form.  Of rules that are
made otherwise only `NamesPlaced` may be expected.
-/

set_option autoImplicit false

namespace Timetable

namespace Finding

theorem localConflict?_eq_none_iff {f : Finding} :
    f.localConflict? = none ↔ f.objection.isFlaw = false := by
  rw [localConflict?]
  cases f.objection <;> simp [Objection.isFlaw]

theorem globalConflict?_eq_none_iff {f : Finding} :
    f.globalConflict? = none ↔ f.objection.clashes = [] := by
  rw [globalConflict?]
  rcases f.objection with text | ⟨_ | ⟨a, l⟩, text⟩ <;> simp [Objection.clashes]

theorem exists_mem_clashes_iff {f : Finding} {a : Start} :
    (∃ g, f.globalConflict? = some g ∧ a ∈ g.clashes) ↔ a ∈ f.objection.clashes := by
  rw [globalConflict?]
  rcases f.objection with text | ⟨_ | ⟨b, l⟩, text⟩
  · simp [Objection.clashes]
  · simp [Objection.clashes]
  · simp [Objection.clashes, mem_distinct]

end Finding

/-! ## The report of a rulebook -/

namespace Rulebook

variable {p : Program} {book : Rulebook} {s : Schedule p} {c a : Start}

/-- Everything the rules have against a start. -/
def findings (book : Rulebook) (s : Schedule p) (c : Start) : List Finding :=
  book.startFindings s c ++ (c.presents p).flatMap (book.presentFindings s)

theorem validate_eq (book : Rulebook) (s : Schedule p) (c : Start) :
    book.validate s c = .ofFindings c (book.pins.holds c) (book.findings s c) := rfl

/-- The findings are the objections of the rules, each with the name of its rule. -/
theorem exists_mem_findings_iff {P : String → Objection → Prop} :
    (∃ f ∈ book.findings s c, P f.rule f.objection) ↔
      ∃ r ∈ book.rules, ∃ o ∈ r.objections s c, P r.name o := by
  simp only [findings, startFindings, presentFindings, List.mem_append, List.mem_flatMap,
    List.mem_map, Rule.mem_objections_iff]
  constructor
  · rintro ⟨f, ⟨r, hr, o, ho, rfl⟩ | ⟨m, hm, r, hr, o, ho, rfl⟩, hP⟩
    · exact ⟨r, hr, o, .inl ho, hP⟩
    · exact ⟨r, hr, o, .inr ⟨m, hm, ho⟩, hP⟩
  · rintro ⟨r, hr, o, ho | ⟨m, hm, ho⟩, hP⟩
    · exact ⟨_, .inl ⟨r, hr, o, ho, rfl⟩, hP⟩
    · exact ⟨_, .inr ⟨m, hm, r, hr, o, ho, rfl⟩, hP⟩

theorem forall_mem_findings_iff {P : Objection → Prop} :
    (∀ f ∈ book.findings s c, P f.objection) ↔
      ∀ r ∈ book.rules, ∀ o ∈ r.objections s c, P o := by
  have h := @exists_mem_findings_iff p book s c fun _ o => ¬ P o
  constructor
  · intro hall r hr o ho
    by_contra hn
    obtain ⟨f, hf, hn⟩ := h.2 ⟨r, hr, o, ho, hn⟩
    exact hn (hall f hf)
  · intro hall f hf
    by_contra hn
    obtain ⟨r, hr, o, ho, hn⟩ := h.1 ⟨f, hf, hn⟩
    exact hn (hall r hr o ho)

/-- **A start is locally valid if no rule finds a fault, or if it is pinned where it is.** -/
theorem isLocallyValid_validate_iff : (book.validate s c).isLocallyValid ↔
    book.pins.holds c ∨ ∀ r ∈ book.rules, r.Permits s c := by
  rw [Report.isLocallyValid, List.isEmpty_iff, validate_eq, Report.ofFindings]
  cases book.pins.holds c with
  | true => simp
  | false =>
    simp only [Bool.false_eq_true, if_false, false_or, List.filterMap_eq_nil_iff,
      Finding.localConflict?_eq_none_iff]
    exact forall_mem_findings_iff (P := fun o => o.isFlaw = false)

/-- **The evictions are the starts that are named by some rule.** -/
theorem mem_evictions_validate_iff :
    a ∈ (book.validate s c).evictions ↔ ∃ r ∈ book.rules, r.Names s c a := by
  rw [Report.mem_evictions, validate_eq, Report.ofFindings]
  simp only [List.mem_filterMap]
  rw [show (∃ r ∈ book.rules, r.Names s c a) ↔ _ from
    (exists_mem_findings_iff (P := fun _ o => a ∈ o.clashes)).symm]
  constructor
  · rintro ⟨g, ⟨f, hf, hg⟩, ha⟩
    exact ⟨f, hf, Finding.exists_mem_clashes_iff.1 ⟨g, hg, ha⟩⟩
  · rintro ⟨f, hf, ha⟩
    obtain ⟨g, hg, ha⟩ := Finding.exists_mem_clashes_iff.2 ha
    exact ⟨g, ⟨f, hf, hg⟩, ha⟩

theorem globals_validate_eq_nil_iff :
    (book.validate s c).globals = [] ↔ ∀ r ∈ book.rules, ∀ a, ¬ r.Names s c a := by
  rw [validate_eq, Report.ofFindings]
  simp only [List.filterMap_eq_nil_iff, Finding.globalConflict?_eq_none_iff]
  rw [forall_mem_findings_iff (P := fun o => o.clashes = [])]
  refine forall_congr' fun r => forall_congr' fun _ => ?_
  simp only [List.eq_nil_iff_forall_not_mem, Rule.Names, not_exists, not_and]
  exact ⟨fun h a o ho => h o ho a, fun h o ho a => h a o ho⟩

/-- **A start is valid if it is locally valid and no rule names anybody.** -/
theorem isValid_validate_iff : (book.validate s c).isValid ↔
    (book.pins.holds c ∨ ∀ r ∈ book.rules, r.Permits s c) ∧
      ∀ r ∈ book.rules, ∀ a, ¬ r.Names s c a := by
  rw [← isLocallyValid_validate_iff, ← globals_validate_eq_nil_iff, Report.isValid,
    Report.isLocallyValid, Bool.and_eq_true, List.isEmpty_iff (l := (book.validate s c).globals)]

theorem isLocallyValid_of_isValid {report : Report} (h : report.isValid) : report.isLocallyValid := by
  rw [Report.isValid, Bool.and_eq_true] at h
  exact h.1

/-- A local conflict is a fault found by the rule whose name it bears. -/
theorem exists_rule_of_mem_locals {l : LocalConflict} (hl : l ∈ (book.validate s c).locals) :
    ∃ r ∈ book.rules, r.name = l.rule ∧ ¬ r.Permits s c := by
  rw [validate_eq, Report.ofFindings] at hl
  split at hl
  · exact absurd hl List.not_mem_nil
  · obtain ⟨f, hf, hl⟩ := List.mem_filterMap.1 hl
    have hrule : f.rule = l.rule := by
      rw [Finding.localConflict?] at hl
      split at hl <;> cases hl
      rfl
    have hflaw : ¬ f.objection.isFlaw = false := fun hn => by
      rw [Finding.localConflict?_eq_none_iff.2 hn] at hl
      cases hl
    obtain ⟨r, hr, o, ho, hname, hflaw⟩ := exists_mem_findings_iff
      (P := fun name o => name = l.rule ∧ ¬ o.isFlaw = false) |>.1 ⟨f, hf, hrule, hflaw⟩
    exact ⟨r, hr, hname, fun hp => hflaw (hp o ho)⟩

theorem nodup_evictions (report : Report) : report.evictions.Nodup := nodup_distinct _

/-- Only one start is to be evicted if it is the one that is named. -/
theorem evictions_eq_singleton {b : Start}
    (h : ∀ a, (∃ r ∈ book.rules, r.Names s c a) ↔ a = b) :
    (book.validate s c).evictions = [b] := by
  refine List.perm_singleton.1 ((List.perm_ext_iff_of_nodup (nodup_evictions _)
    (List.nodup_singleton b)).2 fun a => ?_)
  rw [mem_evictions_validate_iff, h, List.mem_singleton]

/-! ## Placing a start -/

theorem assign_of_isValid (h : (book.validate s c).isValid) : (book.assign s c).2 = s.add c :=
  if_pos h

theorem assign_of_not_isValid (h : ¬ (book.validate s c).isValid) : (book.assign s c).2 = s :=
  if_neg h

/-- **A start is added if it is valid; otherwise nothing happens.** -/
theorem assign_cases (book : Rulebook) (s : Schedule p) (c : Start) :
    (book.assign s c).2 = s ∨ (book.validate s c).isValid ∧ (book.assign s c).2 = s.add c := by
  by_cases h : (book.validate s c).isValid
  · exact .inr ⟨h, assign_of_isValid h⟩
  · exact .inl (assign_of_not_isValid h)

section Loading

variable {l : List Start}

theorem placeAll_cons_of_isValid (h : (book.validate s c).isValid) :
    book.placeAll s (c :: l) = book.placeAll (s.add c) l := by
  rw [placeAll, ← assign_of_isValid h]
  exact if_pos h

theorem placeAll_cons_of_not_isValid (h : ¬ (book.validate s c).isValid) :
    book.placeAll s (c :: l) =
      .error (.conflict c.sectionId c.periodId (book.validate s c).text) := by
  rw [placeAll]
  exact if_neg h

theorem placeSome_cons_of_isValid (h : (book.validate s c).isValid) :
    book.placeSome s (c :: l) = book.placeSome (s.add c) l := by
  rw [← assign_of_isValid h]
  rfl

theorem placeSome_cons_of_not_isValid (h : ¬ (book.validate s c).isValid) :
    book.placeSome s (c :: l) = book.placeSome s l :=
  congrArg (book.placeSome · l) (assign_of_not_isValid h)

/-- **What can all be placed is not left out.** -/
theorem placeSome_of_placeAll {t : Schedule p} (h : book.placeAll s l = .ok t) :
    book.placeSome s l = t := by
  induction l generalizing s with
  | nil => exact Except.ok.inj h
  | cons c l ih =>
    by_cases hv : (book.validate s c).isValid
    · rw [placeSome_cons_of_isValid hv]
      rw [placeAll_cons_of_isValid hv] at h
      exact ih h
    · rw [placeAll_cons_of_not_isValid hv] at h
      cases h

end Loading

/-- The schedule without the starts that a start would evict. -/
def cleared (book : Rulebook) (s : Schedule p) (c : Start) : Schedule p :=
  (book.validate s c).evictions.foldl Schedule.remove s

theorem force_of_isValid (hlocal : (book.validate s c).isLocallyValid)
    (hv : (book.validate (book.cleared s c) c).isValid) :
    (book.force s c).2 = (book.cleared s c).add c := by
  rw [force, if_pos hlocal]
  exact (if_pos hv).trans (assign_of_isValid hv)

/-- **A start is added where it evicts, if it is locally valid and valid without the evictions;
otherwise nothing happens.** -/
theorem force_cases (book : Rulebook) (s : Schedule p) (c : Start) :
    (book.force s c).2 = s ∨ (book.validate s c).isLocallyValid ∧
      (book.validate (book.cleared s c) c).isValid ∧
        (book.force s c).2 = (book.cleared s c).add c := by
  by_cases hlocal : (book.validate s c).isLocallyValid
  · by_cases hv : (book.validate (book.cleared s c) c).isValid
    · exact .inr ⟨hlocal, hv, force_of_isValid hlocal hv⟩
    · refine .inl ?_
      rw [force, if_pos hlocal]
      exact if_neg hv
  · exact .inl (by rw [force, if_neg hlocal])

/-- Taking out starts that are placed leaves the others where they are. -/
theorem coherent_foldl_remove (h : s.Coherent) {l : List Start} (hl : ∀ b ∈ l, s.Holds b)
    (hnodup : l.Nodup) : (l.foldl Schedule.remove s).Coherent ∧
      ∀ a, (l.foldl Schedule.remove s).Holds a ↔ s.Holds a ∧ a ∉ l := by
  induction l generalizing s with
  | nil => simp [h]
  | cons b l ih =>
    obtain ⟨hb, hnodup⟩ := List.nodup_cons.1 hnodup
    have hb' := hl b List.mem_cons_self
    have hrest : ∀ d ∈ l, (s.remove b).Holds d := fun d hd =>
      (h.holds_remove hb').2 ⟨hl d (List.mem_cons_of_mem b hd), fun hdb => hb (hdb ▸ hd)⟩
    obtain ⟨hcoh, hholds⟩ := ih (h.remove hb') hrest hnodup
    refine ⟨hcoh, fun a => ?_⟩
    rw [List.foldl_cons, hholds, h.holds_remove hb', List.mem_cons, not_or, and_assoc]

/-! ## Rulebooks of configurations -/

/-- All rules are among those that can be configured. -/
def IsBuiltIn (book : Rulebook) : Prop :=
  ∀ r ∈ book.rules, ∃ kind bounds pins seed, r = RuleKind.rule bounds pins seed kind

/-- Whoever is named by a rule is placed. -/
def NamesPlaced (book : Rulebook) (p : Program) : Prop := ∀ r ∈ book.rules, r.NamesPlaced p

/-- Whoever is to be evicted is placed. -/
theorem NamesPlaced.holds_of_mem_evictions (h : book.NamesPlaced p) (hs : s.Coherent)
    (hc : c.IsOf p) (ha : a ∈ (book.validate s c).evictions) : s.Holds a := by
  obtain ⟨r, hr, ha⟩ := mem_evictions_validate_iff.1 ha
  exact h r hr s c a hs hc ha

theorem IsBuiltIn.namesPlaced (h : book.IsBuiltIn) : book.NamesPlaced p := by
  intro r hr s c a hs hc ha
  obtain ⟨kind, bounds, pins, seed, rfl⟩ := h r hr
  exact RuleKind.holds_of_names hs hc ha

/-- All rules are among those that can be configured, and nothing is pinned. -/
structure IsUnpinned (book : Rulebook) : Prop where
  pins : book.pins = .none
  rules : ∀ r ∈ book.rules, ∃ kind bounds seed, r = RuleKind.rule bounds .none seed kind

theorem IsUnpinned.isBuiltIn (h : book.IsUnpinned) : book.IsBuiltIn := fun r hr =>
  have ⟨kind, bounds, seed, hr⟩ := h.rules r hr
  ⟨kind, bounds, .none, seed, hr⟩

end Rulebook

/-- Rules of different kinds differ, if only by their names. -/
theorem RuleKind.eq_of_rule_eq {kind kind' : RuleKind} {bounds bounds' : SizeBounds}
    {pins pins' : Pins} {seed seed' : UInt64}
    (h : kind.rule bounds pins seed = kind'.rule bounds' pins' seed') : kind = kind' := by
  have hname : kind.name = kind'.name := by
    rw [← name_rule bounds pins seed kind, h, name_rule]
  revert hname
  cases kind <;> cases kind' <;> decide

namespace RuleConfig

variable (config : RuleConfig)

theorem mem_rules_rulebook {r : Rule} : r ∈ config.rulebook.rules ↔ ∃ (i : Nat) (kind : RuleKind),
    config.rules[i]? = some kind ∧
      r = kind.rule config.bounds (.ofList config.pinned) (config.seed.getD 0 + i.toUInt64) := by
  simp only [rulebook, List.mem_map, Prod.exists, List.mk_mem_zipIdx_iff_getElem?]
  constructor
  · rintro ⟨kind, i, hi, rfl⟩
    exact ⟨i, kind, hi, rfl⟩
  · rintro ⟨i, kind, hi, rfl⟩
    exact ⟨kind, i, hi, rfl⟩

variable {config} in
theorem exists_rule_mem {kind : RuleKind} (h : kind ∈ config.rules) :
    ∃ seed, kind.rule config.bounds (.ofList config.pinned) seed ∈ config.rulebook.rules := by
  obtain ⟨i, hi⟩ := List.mem_iff_getElem?.1 h
  exact ⟨_, config.mem_rules_rulebook.2 ⟨i, kind, hi, rfl⟩⟩

variable {config} in
theorem mem_of_rule_mem {kind : RuleKind} {bounds : RuleKind.SizeBounds} {pins : Pins}
    {seed : UInt64} (h : kind.rule bounds pins seed ∈ config.rulebook.rules) :
    kind ∈ config.rules := by
  obtain ⟨i, kind', hi, he⟩ := config.mem_rules_rulebook.1 h
  rw [RuleKind.eq_of_rule_eq he]
  exact List.mem_of_getElem? hi

/-- A configuration makes a rulebook of rules that can be configured. -/
theorem isBuiltIn_rulebook : config.rulebook.IsBuiltIn := by
  intro r hr
  obtain ⟨i, kind, -, rfl⟩ := config.mem_rules_rulebook.1 hr
  exact ⟨kind, _, _, _, rfl⟩

/-- Without pinned placements nothing is pinned. -/
theorem isUnpinned_rulebook (h : config.pinned = []) : config.rulebook.IsUnpinned where
  pins := by rw [rulebook, h]; rfl
  rules r hr := by
    obtain ⟨i, kind, -, rfl⟩ := config.mem_rules_rulebook.1 hr
    rw [h]
    exact ⟨kind, _, _, rfl⟩

end RuleConfig

end Timetable

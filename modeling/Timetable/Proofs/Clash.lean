import Timetable.Proofs.Pinned

/-!
# What stands in the way of a start

The rules look at a run period by period, and at what is in session in each.  Under the standard
rules the outcome can be said without periods and without rules: a scheduled start is in the way of
a candidate (`Start.InTheWayOf`) if it is of the same section, or if it overlaps the candidate and
shares the room or a teacher with it.

`Reachable.evictions_iff_inTheWay` says that the report on a candidate names these starts and no
others, whatever is pinned, and that there is no global conflict exactly if there are none.
-/

set_option autoImplicit false

namespace Timetable

variable {p : Program} {s : Schedule p} {a c : Start}

/-- A start that cannot be kept beside another one: it is of the same section, or it overlaps the
other one in its room or with one of its teachers. -/
def Start.InTheWayOf (p : Program) (a c : Start) : Prop :=
  a.sectionId = c.sectionId ∨
    a.overlaps c ∧ (a.roomId = c.roomId ∨ p.shareTeacher a.sectionId c.sectionId)

instance (p : Program) (a c : Start) : Decidable (a.InTheWayOf p c) :=
  inferInstanceAs (Decidable (_ ∨ _))

namespace RuleConfig

variable {config : RuleConfig}

theorem exists_rule_mem_of_standard (hrules : config.rules = RuleKind.standard) {kind : RuleKind}
    (hkind : kind ∈ RuleKind.standard) :
    ∃ seed, kind.rule config.bounds (.ofList config.pinned) seed ∈ config.rulebook.rules :=
  exists_rule_mem (hrules ▸ hkind)

/-- Of the standard rules those against double booking name somebody, and between them they name
whatever is in the way. -/
theorem exists_names_iff_inTheWay (hrules : config.rules = RuleKind.standard) (h : s.Coherent)
    (hc : c.IsOf p) :
    (∃ r ∈ config.rulebook.rules, r.Names s c a) ↔ s.Holds a ∧ a.InTheWayOf p c := by
  constructor
  · rintro ⟨r, hr, ha⟩
    obtain ⟨i, kind, hkind, rfl⟩ := config.mem_rules_rulebook.1 hr
    refine ⟨RuleKind.holds_of_names h hc ha, ?_⟩
    have hmem : kind ∈ RuleKind.standard := hrules ▸ List.mem_of_getElem? hkind
    simp only [RuleKind.standard, List.mem_cons, List.not_mem_nil, or_false] at hmem
    rcases hmem with rfl | rfl | rfl | rfl | rfl
    · exact .inl (h.isOf (Rule.names_duplicateSections_iff.1 ha)).2
    · obtain ⟨-, hac, -, hshare⟩ := (Rule.names_teacherConflict_iff h hc).1 ha
      exact .inr ⟨hac, .inr ((p.shareTeacher_comm _ _).1 hshare)⟩
    · exact absurd ha Rule.not_names_localConflict
    · obtain ⟨-, hac, -, hroom⟩ := (Rule.names_roomConflict_iff h hc).1 ha
      exact .inr ⟨hac, .inl hroom⟩
    · exact absurd ha Rule.not_names_roomProperties
  · rintro ⟨ha, hway⟩
    have hrule := @exists_rule_mem_of_standard config hrules
    -- a start of the same section is named as such, even if it overlaps the candidate
    by_cases hid : a.sectionId = c.sectionId
    · obtain ⟨_, hdup⟩ := @hrule .duplicateSections (by decide)
      refine ⟨_, hdup, Rule.names_duplicateSections_iff.2 ?_⟩
      rw [← hid]
      exact ha
    · obtain ⟨hac, hroom | hshare⟩ := hway.resolve_left hid
      · obtain ⟨_, hmem⟩ := @hrule .roomConflict (by decide)
        exact ⟨_, hmem, (Rule.names_roomConflict_iff h hc).2 ⟨ha, hac, hid, hroom⟩⟩
      · obtain ⟨_, hmem⟩ := @hrule .teacherConflict (by decide)
        exact ⟨_, hmem, (Rule.names_teacherConflict_iff h hc).2
          ⟨ha, hac, hid, (p.shareTeacher_comm _ _).1 hshare⟩⟩

/-- What can be reached under the standard rules is coherent. -/
theorem coherent_of_reachable (hrules : config.rules = RuleKind.standard)
    (h : Reachable config.rulebook s) : s.Coherent := by
  refine coherent_of_reaches ?_ ?_ h
  · rw [hrules]
    decide
  · rw [hrules]
    decide

end RuleConfig

/-- **Under the standard rules the starts to be evicted for a candidate are those in its way, and it
clashes with nothing exactly if nothing is in its way.** -/
theorem Reachable.evictions_iff_inTheWay {config : RuleConfig}
    (hrules : config.rules = RuleKind.standard) (h : Reachable config.rulebook s) (hc : c.IsOf p) :
    (∀ a, a ∈ (config.rulebook.validate s c).evictions ↔ a ∈ s.starts ∧ a.InTheWayOf p c) ∧
      ((config.rulebook.validate s c).globals = [] ↔ ∀ a ∈ s.starts, ¬ a.InTheWayOf p c) := by
  have hs := RuleConfig.coherent_of_reachable hrules h
  have hnames : ∀ a, (∃ r ∈ config.rulebook.rules, r.Names s c a) ↔
      a ∈ s.starts ∧ a.InTheWayOf p c := fun a => by
    rw [hs.mem_starts_iff, RuleConfig.exists_names_iff_inTheWay hrules hs hc]
  refine ⟨fun a => Rulebook.mem_evictions_validate_iff.trans (hnames a), ?_⟩
  rw [Rulebook.globals_validate_eq_nil_iff]
  constructor
  · intro hnone a ha hway
    obtain ⟨r, hr, hra⟩ := (hnames a).2 ⟨ha, hway⟩
    exact hnone r hr a hra
  · intro hnone r hr a hra
    obtain ⟨ha, hway⟩ := (hnames a).1 ⟨r, hr, hra⟩
    exact hnone a ha hway

namespace Contested

/-- Another section of the teacher of the pinned one, at the same time in the other room. -/
def sameTeacher : Start := ⟨⟨⟨1⟩, 0⟩, ⟨2⟩, ⟨4⟩, ⟨1⟩, 1⟩

end Contested

theorem evictions_iff_inTheWay_sameTeacher :
    let report := (Contested.config RuleKind.standard).rulebook.validate Contested.held
      Contested.sameTeacher
    Contested.held.starts = [Contested.pinnedStart] ∧
      Contested.pinnedStart.InTheWayOf Contested.program Contested.sameTeacher ∧
      (∀ a, a ∈ report.evictions ↔ a ∈ Contested.held.starts ∧
        a.InTheWayOf Contested.program Contested.sameTeacher) ∧
      (report.globals = [] ↔ ∀ a ∈ Contested.held.starts,
        ¬ a.InTheWayOf Contested.program Contested.sameTeacher) :=
  ⟨by decide +kernel, by decide +kernel, Reachable.evictions_iff_inTheWay rfl
    (Contested.reachable_held RuleKind.standard) rfl⟩

end Timetable

import Timetable.Proofs.Verdict

/-!
# Forcing a start twice

A start that is forced where it is placed already makes way for itself only: it is taken out, found
valid as before and placed again, so forcing it twice is forcing it once.

It makes no difference that the start was forced the first time: all that matters is that it was
valid when it was placed (`Rulebook.evictions_add`, `Rulebook.alike_force_add`).  What the rules have
in common is that those who are named are placed, and that nobody but the candidate's own section is
named who was not named without it (`RuleKind.sectionId_eq_of_names`).  A rule of pools, caps or
lunches that counted the candidate itself as somebody else would evict another start.
-/

set_option autoImplicit false

namespace Timetable

variable {p : Program} {book : Rulebook} {s : Schedule p} {c a : Start}

namespace Rulebook

variable (hbook : book.IsBuiltIn) (hdup : .duplicateSections ∈ book.rules)
  (hroom : .roomConflict ∈ book.rules) (hs : s.Coherent) (hc : c.IsOf p)
  (hv : (book.validate s c).isValid)

/-! ## A valid start where it is placed -/

include hdup hs hv in
theorem isPartOf_add : s.IsPartOf (s.add c) :=
  fun _ ha => (holds_add_of_isValid hs hdup hv).2 (.inr ha)

include hdup hs hv in
theorem holdsLess_add : (s.add c).HoldsLess s c := by
  intro a ha hne
  refine ((holds_add_of_isValid hs hdup hv).1 ha).resolve_left ?_
  rintro rfl
  exact hne rfl

include hbook hdup hroom hs hc hv

/-- **A valid start that is placed is named, and nobody else is.** -/
theorem exists_names_add_iff : (∃ r ∈ book.rules, r.Names (s.add c) c a) ↔ a = c := by
  have ht := coherent_add hs hdup hroom hc hv
  have hplaced : (s.add c).startOf? c.sectionId = some c :=
    (holds_add_of_isValid hs hdup hv).2 (.inl rfl)
  constructor
  · rintro ⟨r, hr, ha⟩
    have hspares : r.Spares s c (s.add c) := fun b _ _ => (isValid_validate_iff.1 hv).2 r hr b
    obtain ⟨kind, bounds, pins, seed, rfl⟩ := hbook r hr
    have hid := RuleKind.sectionId_eq_of_names hs ht hc (holdsLess_add hdup hs hv) hspares ha
    have hheld : (s.add c).startOf? a.sectionId = some a := RuleKind.holds_of_names ht hc ha
    rw [hid, hplaced] at hheld
    exact (Option.some.inj hheld).symm
  · rintro rfl
    exact ⟨_, hdup, Rule.names_duplicateSections_iff.2 hplaced⟩

theorem evictions_add : (book.validate (s.add c) c).evictions = [c] :=
  evictions_eq_singleton fun _ => exists_names_add_iff hbook hdup hroom hs hc hv

theorem isLocallyValid_add : (book.validate (s.add c) c).isLocallyValid := by
  have ht := coherent_add hs hdup hroom hc hv
  refine isLocallyValid_of_holdsLess hbook hs ht (holdsLess_add hdup hs hv) (fun _ => ?_)
    (isLocallyValid_of_isValid hv)
  exact Rule.permits_prerequisites_of_isPartOf hs ht (isPartOf_add hdup hs hv)

/-! ## Forcing it again -/

/-- Without what has to make way the schedule is as it was. -/
theorem alike_cleared_add : (book.cleared (s.add c) c).Alike s := by
  obtain ⟨hcleared, hholds⟩ := coherent_cleared hbook (coherent_add hs hdup hroom hc hv) hc
  refine ⟨hcleared, hs, fun a => ?_⟩
  rw [hholds, evictions_add hbook hdup hroom hs hc hv, List.mem_singleton,
    holds_add_of_isValid hs hdup hv]
  constructor
  · rintro ⟨ha, hne⟩
    exact ha.resolve_left hne
  · intro ha
    refine ⟨.inr ha, ?_⟩
    rintro rfl
    exact ha.sectionId_ne (startOf?_eq_none_of_isValid hdup hv) rfl

/-- **A valid start that is placed can be forced.** -/
theorem isValid_force_add : (book.force (s.add c) c).1.isValid := by
  have halike := alike_cleared_add hbook hdup hroom hs hc hv
  exact isValid_force_iff.2 ⟨isLocallyValid_add hbook hdup hroom hs hc hv,
    (hbook.sameButForLots.isValid_iff halike hc).2 hv⟩

/-- **Forcing it changes nothing.** -/
theorem alike_force_add : (book.force (s.add c) c).2.Alike (s.add c) := by
  rw [force_of_isValid_force (isValid_force_add hbook hdup hroom hs hc hv)]
  have halike := alike_cleared_add hbook hdup hroom hs hc hv
  have hcleared := (hbook.sameButForLots.isValid_iff halike hc).2 hv
  exact halike.add hc (startOf?_eq_none_of_isValid hdup hcleared)
    (not_overlaps_of_isValid halike.left hdup hroom hc hcleared)

end Rulebook

/-- **Forcing a start twice is forcing it once.**  The second time it makes way for itself only, and
the same starts are placed as the first time. -/
theorem Reachable.force_idempotent (hbook : book.IsBuiltIn)
    (hdup : .duplicateSections ∈ book.rules) (hroom : .roomConflict ∈ book.rules)
    (h : Reachable book s) (hc : c.IsOf p) (hv : (book.force s c).1.isValid) :
    (∀ a, (∃ g ∈ (book.validate (book.force s c).2 c).globals, a ∈ g.clashes) ↔ a = c) ∧
      (book.force (book.force s c).2 c).1.isValid ∧
      (book.force (book.force s c).2 c).2.starts = (book.force s c).2.starts ∧
      (book.force (book.force s c).2 c).2.Consists (book.force s c).2.starts := by
  obtain ⟨hcleared, -⟩ := Rulebook.coherent_cleared hbook (h.coherent hdup hroom hbook) hc
  have hvalid := (Rulebook.isValid_force_iff.1 hv).2
  rw [Rulebook.force_of_isValid_force hv]
  have halike := Rulebook.alike_force_add hbook hdup hroom hcleared hc hvalid
  refine ⟨fun a => ?_, Rulebook.isValid_force_add hbook hdup hroom hcleared hc hvalid,
    halike.starts_eq, halike.left.consists halike.starts_perm⟩
  rw [← Report.mem_evictions, Rulebook.evictions_add hbook hdup hroom hcleared hc hvalid,
    List.mem_singleton]

open Contested in
theorem force_idempotent_borrower :
    let book := (config RuleKind.all).rulebook
    let t := (book.force held borrower).2
    (book.validate held borrower).evictions = [pinnedStart] ∧ t.starts = [borrower] ∧
      (book.force t borrower).1.isValid ∧ (book.force t borrower).2.starts = t.starts := by
  have hmem := @RuleConfig.exists_rule_mem (config RuleKind.all)
  obtain ⟨_, hdup⟩ := @hmem .duplicateSections (by decide)
  obtain ⟨_, hroom⟩ := @hmem .roomConflict (by decide)
  obtain ⟨-, hvalid, hstarts, -⟩ := Reachable.force_idempotent (RuleConfig.isBuiltIn_rulebook _)
    hdup hroom (reachable_held _) (isOf_rival borrower List.mem_cons_self) (by decide +kernel)
  exact ⟨by decide +kernel, by decide +kernel, hvalid, hstarts⟩

end Timetable

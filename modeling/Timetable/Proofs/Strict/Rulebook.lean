import Mathlib.Data.Set.List
import Timetable.Proofs.Reachable
import Timetable.Proofs.Strict.Rule

/-!
# Strict evaluation: validating and placing

A `RuleChain` lists rules by their kinds, with what each is made with, and so stands for a rulebook
(`RuleChain.book`) and for the strict rules at the same time.  The rulebooks of chains are those all of
whose rules can be configured: `Rulebook.isBuiltIn_iff`.

Validating a start, placing it and rebuilding a schedule succeed strictly in every coherent schedule
for every start of the program.  Where starts are placed one after the other, the schedules on the way
are coherent because each is reached by edits from the one before.
-/

set_option autoImplicit false

namespace Timetable

/-! ## Chains of rules -/

/-- A rule that can be configured, and what it is made with. -/
structure RuleSpec where
  kind : RuleKind
  bounds : RuleKind.SizeBounds := {}
  pins : Pins := .none
  seed : UInt64 := 0

/-- The rule. -/
def RuleSpec.rule (spec : RuleSpec) : Rule := spec.kind.rule spec.bounds spec.pins spec.seed

/-- The strict rule. -/
def RuleSpec.strictRule (spec : RuleSpec) : StrictRule :=
  spec.kind.strictRule spec.bounds spec.pins spec.seed

/-- Rules that can be configured, in order, and the placements that are pinned. -/
structure RuleChain where
  specs : List RuleSpec
  pins : Pins := .none

/-- The rulebook with the rules of a chain. -/
def RuleChain.book (chain : RuleChain) : Rulebook where
  rules := chain.specs.map (·.rule)
  pins := chain.pins

/-- **A rulebook is that of a chain if all its rules can be configured.** -/
theorem Rulebook.isBuiltIn_iff {book : Rulebook} :
    book.IsBuiltIn ↔ ∃ chain : RuleChain, chain.book = book := by
  constructor
  · intro h
    have hmem : book.rules ∈ {l | ∀ r ∈ l, r ∈ Set.range RuleSpec.rule} := fun r hr => by
      obtain ⟨kind, bounds, pins, seed, rfl⟩ := h r hr
      exact ⟨⟨kind, bounds, pins, seed⟩, rfl⟩
    rw [← Set.range_list_map] at hmem
    obtain ⟨specs, hspecs⟩ := hmem
    exact ⟨⟨specs, book.pins⟩, by rw [RuleChain.book, hspecs]⟩
  · rintro ⟨chain, rfl⟩ r hr
    obtain ⟨spec, -, rfl⟩ := List.mem_map.1 hr
    exact ⟨spec.kind, spec.bounds, spec.pins, spec.seed, rfl⟩

namespace RuleChain

variable {p : Program} (chain : RuleChain)

theorem isBuiltIn_book : chain.book.IsBuiltIn := Rulebook.isBuiltIn_iff.2 ⟨chain, rfl⟩

/-! ## Validating -/

/-- What the rules have against a run as a whole. -/
def startFindings! (s : Schedule p) (c : Start) : Except Panic (List Finding) :=
  chain.specs.flatMapM fun spec => do
    return (← spec.strictRule.onStart s c).map fun o => ⟨spec.kind.name, .run c, o⟩

/-- What the rules have against one period of a run. -/
def presentFindings! (s : Schedule p) (m : Present) : Except Panic (List Finding) :=
  chain.specs.flatMapM fun spec => do
    return (← spec.strictRule.onPresent s m).map fun o => ⟨spec.kind.name, .moment m, o⟩

/-- Asks all rules about a start. -/
def validate! (s : Schedule p) (c : Start) : Except Panic Report := do
  let run ← chain.startFindings! s c
  let moments ← (← c.presents! p).flatMapM (chain.presentFindings! s)
  return .ofFindings c (chain.pins.holds c) (run ++ moments)

variable {chain} {s : Schedule p} {c : Start}

theorem startFindings!_eq (hs : s.Coherent) (hc : c.IsOf p) :
    chain.startFindings! s c = .ok (chain.book.startFindings s c) := by
  rw [Rulebook.startFindings, book, List.flatMap_map]
  refine flatMapM_eq_ok fun spec _ => ?_
  rw [RuleSpec.strictRule, (RuleKind.agrees_strictRule _ _ _ _).onStart hs hc, ok_bind,
    RuleSpec.rule, RuleKind.name_rule]
  rfl

theorem presentFindings!_eq (hs : s.Coherent) (hc : c.IsOf p) {m : Present}
    (hm : m ∈ c.presents p) :
    chain.presentFindings! s m = .ok (chain.book.presentFindings s m) := by
  rw [Rulebook.presentFindings, book, List.flatMap_map]
  refine flatMapM_eq_ok fun spec _ => ?_
  rw [RuleSpec.strictRule, (RuleKind.agrees_strictRule _ _ _ _).onPresent hs hc hm, ok_bind,
    RuleSpec.rule, RuleKind.name_rule]
  rfl

/-- **Validating a start looks up nothing in vain.** -/
theorem validate!_eq (hs : s.Coherent) (hc : c.IsOf p) :
    chain.validate! s c = .ok (chain.book.validate s c) := by
  rw [validate!, startFindings!_eq hs hc, ok_bind, hc.presents!_eq, ok_bind,
    flatMapM_eq_ok fun m hm => presentFindings!_eq hs hc hm]
  rfl

/-! ## Placing -/

variable (chain)

/-- Places a start if there is nothing against it. -/
def assign! (s : Schedule p) (c : Start) : Except Panic (Report × Schedule p) := do
  let report ← chain.validate! s c
  return (report, if report.isValid then s.add c else s)

/-- Places a start, taking out the starts it clashes with. -/
def force! (s : Schedule p) (c : Start) : Except Panic (Report × Schedule p) := do
  let first ← chain.validate! s c
  if first.isLocallyValid then do
    let cleared := first.evictions.foldl Schedule.remove s
    let (second, placed) ← chain.assign! cleared c
    return (second, if second.isValid then placed else s)
  else return (first, s)

/-- Whether starts can be placed one after the other. -/
def placesAll! : Schedule p → List Start → Except Panic Bool
  | _, [] => .ok true
  | s, c :: rest => do
    let (report, s) ← chain.assign! s c
    if report.isValid then placesAll! s rest else return false

/-- Whether a schedule can be built up from nothing, start by start in the placement order. -/
def isCompletelyValid! (s : Schedule p) : Except Panic Bool :=
  chain.placesAll! (.empty p) (chain.book.placementOrder (s.starts.map fun c => (false, c)))

variable {chain}

theorem assign!_eq (hs : s.Coherent) (hc : c.IsOf p) :
    chain.assign! s c = .ok (chain.book.assign s c) := by
  rw [assign!, validate!_eq hs hc]
  rfl

/-- **Forcing a start looks up nothing in vain**, neither before nor after the evictions. -/
theorem force!_eq (hs : s.Coherent) (hc : c.IsOf p) :
    chain.force! s c = .ok (chain.book.force s c) := by
  have hcleared := (Rulebook.coherent_cleared chain.isBuiltIn_book hs hc).1
  rw [Rulebook.cleared] at hcleared
  rw [force!, validate!_eq hs hc, ok_bind, Rulebook.force]
  split
  · simp only [assign!_eq hcleared hc, ok_bind]
    rfl
  · rfl

variable (hdup : .duplicateSections ∈ chain.book.rules)
  (hroom : .roomConflict ∈ chain.book.rules)

include hdup hroom

/-- The schedules on the way are coherent, as each is reached from the one before by edits. -/
theorem placesAll!_eq (hs : s.Coherent) {l : List Start} (hl : ∀ c ∈ l, c.IsOf p) :
    chain.placesAll! s l = .ok (chain.book.placeAll s l).toOption.isSome := by
  induction l generalizing s with
  | nil => rfl
  | cons c l ih =>
    have hc := hl c List.mem_cons_self
    have hnext := (Edits.refl.assign hc).coherent hdup hroom hs
    rw [placesAll!, assign!_eq hs hc, ok_bind, Rulebook.placeAll]
    simp only
    split
    · exact ih hnext fun b hb => hl b (List.mem_cons_of_mem c hb)
    · rfl

theorem isCompletelyValid!_eq (hs : s.Coherent) :
    chain.isCompletelyValid! s = .ok (chain.book.isCompletelyValid s) := by
  refine placesAll!_eq hdup hroom .empty fun c hc => ?_
  obtain ⟨marked, hmem⟩ := Rulebook.mem_placementOrder.1 hc
  obtain ⟨b, hb, he⟩ := List.mem_map.1 hmem
  cases he
  exact hs.isOf_of_mem_starts hb

end RuleChain

end Timetable

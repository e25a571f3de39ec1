import Timetable.Proofs.Booking
import Timetable.Proofs.Strict.Move
import Timetable.Proofs.Strict.Score
import Timetable.Proofs.Swapping

/-!
# Nothing is looked up in vain

That a look-up finds nothing, that an index is out of range or that a difference is negative would go
unnoticed in this library, which has a value for each of these cases.  Strict evaluation notices.
`Reachable.runs_strictly` says that it makes no difference: whatever is done to a schedule that can be
reached, done strictly, comes to the same.

There are three reasons, and each is established elsewhere:

* A program is accepted only if every identifier in it leads to an entity (`Program.wellFormed`).
* A start is made only if its entities exist and its run fits into its block (`Start.IsOf`).
* Only starts of the program are ever placed (`Reaches.coherent`), so what is found in a schedule is
  as good as what is made for the purpose.

What is left are sums that do not fit their machine words, which do not go unnoticed here either.
Moves and summaries are given up because of them, and for no other reason.
-/

set_option autoImplicit false

namespace Timetable

/-- **A move is given up only because of a sum that does not fit its machine word**, whatever is
drawn. -/
theorem MoveKind.eq_overflow_of_move {G : Type} [RandomSource G] {book : Rulebook}
    (hdup : .duplicateSections ∈ book.rules) (hroom : .roomConflict ∈ book.rules) {p : Program}
    {s : Schedule p} (hs : s.Coherent) {temperature : Float} {rng : G} {kind : MoveKind} {f : Fault}
    (h : kind.move book s temperature rng = .error f) : f = .overflow := by
  cases kind with
  | greedy | destructive =>
    obtain ⟨id, -, hf, -⟩ := (Move.meets_placeBatch (P := fun _ _ => True) (fun _ _ _ => trivial)
      (fun _ => trivial) temperature rng).of_eq_error h
    exact hf
  | destructiveByRoom =>
    obtain ⟨id, -, hf, -⟩ := (Move.meets_fillRooms (P := fun _ _ => True) (fun _ _ _ => trivial)
      (fun _ => trivial) temperature rng).of_eq_error h
    exact hf
  | swapping =>
    rw [MoveKind.move, Move.swap, swapCount, addWithin] at h
    split at h
    · exact ((Move.meets_swapTimes hdup hroom _ hs rng).of_eq_error h).1
    · cases h
      rfl

/-- What can be done to a schedule by the rules of a chain, and what can be measured of it, comes to
the same strictly.  A move or a summary may be given up with a fault, and then the strict one is given
up with the same.  Such a fault is about a sum that does not fit its machine word. -/
structure RuleChain.RunsStrictly (chain : RuleChain) {p : Program} (s : Schedule p) : Prop where
  validate : ∀ c : Start, c.IsOf p → chain.validate! s c = .ok (chain.book.validate s c)
  assign : ∀ c : Start, c.IsOf p → chain.assign! s c = .ok (chain.book.assign s c)
  force : ∀ c : Start, c.IsOf p → chain.force! s c = .ok (chain.book.force s c)
  removeSection : ∀ id, s.removeSection! id = .ok (s.removeSection id)
  isCompletelyValid : chain.isCompletelyValid! s = .ok (chain.book.isCompletelyValid s)
  move : ∀ {G : Type} [RandomSource G] (kind : MoveKind) (temperature : Float) (rng : G),
    kind.move! chain s temperature rng =
      (kind.move chain.book s temperature rng).mapError .fault
  fault_of_move : ∀ {G : Type} [RandomSource G] (kind : MoveKind) (temperature : Float) (rng : G)
    (f : Fault), kind.move chain.book s temperature rng = .error f → f = .overflow
  summary : s.summary! = s.summary.mapError .fault
  fault_of_summary : ∀ f : Fault, s.summary = .error f → f = .overflow
  evaluate : ∀ metric : Metric, metric.evaluate! s = .ok (metric.evaluate s)
  score : ∀ terms, scoreOf! terms s = .ok (scoreOf terms s)

/-- **Behind an accepted program no look-up fails, no index is out of range and no difference is
negative**, in whatever schedule can be reached and whatever is drawn. -/
theorem Reachable.runs_strictly {chain : RuleChain} (hdup : .duplicateSections ∈ chain.book.rules)
    (hroom : .roomConflict ∈ chain.book.rules) {p : Program} {s : Schedule p}
    (h : Reachable chain.book s) : chain.RunsStrictly s := by
  have hedits := h.edits hdup hroom chain.isBuiltIn_book
  have hs := hedits.coherent hdup hroom .empty
  exact {
    validate := fun c hc => RuleChain.validate!_eq hs hc
    assign := fun c hc => RuleChain.assign!_eq hs hc
    force := fun c hc => RuleChain.force!_eq hs hc
    removeSection := s.removeSection!_eq
    isCompletelyValid := RuleChain.isCompletelyValid!_eq hdup hroom hs
    move := fun kind temperature rng => kind.move!_eq hdup hroom hedits temperature rng
    fault_of_move := fun _ _ _ _ hf => MoveKind.eq_overflow_of_move hdup hroom hs hf
    summary := hs.summary!_eq
    fault_of_summary := fun _ hf => (Schedule.summary_eq_error_iff.1 hf).1
    evaluate := hs.evaluate!_eq
    score := hs.scoreOf!_eq }

/-- The rules of the given kinds with nothing pinned. -/
def Sequel.chainOf (kinds : List RuleKind) : RuleChain where
  specs := kinds.map fun kind => { kind }

theorem runs_strictly_bothPlaced :
    let chain := Sequel.chainOf (RuleKind.all.erase .localConflict)
    (Sequel.bothPlaced chain.book).starts = [Sequel.first, Sequel.second] ∧
      chain.RunsStrictly (Sequel.bothPlaced chain.book) := by
  intro chain
  exact ⟨by decide +kernel, Reachable.runs_strictly List.mem_cons_self
    (List.mem_cons_of_mem _ (List.mem_cons_of_mem _ List.mem_cons_self))
    (Sequel.reaches_bothPlaced chain.book trivial trivial)⟩

/-- A start that is not one of the program is another matter. -/
example : (Sequel.chainOf RuleKind.standard).validate! (.empty Sequel.program)
    { Sequel.first with sectionId := ⟨3⟩ } = .error (.absent .courseSection 3 "") := rfl

end Timetable

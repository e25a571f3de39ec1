import Timetable.Proofs.Interleaving
import Timetable.Proofs.Pinned

/-!
# Invariants of a search

Whatever the moves of a search keep is true of its result, and that result has been reached from the
first state by the move of the search, made a number of times.  `Move.Composed.kept_by_search` says
so for moves that are composed of others in any way, and for each of the things that are done with a
move: making it, walking with it, playing rounds with workers that walk with it, and playing rounds
with everybody at work at the same time.
-/

set_option autoImplicit false

namespace Timetable

open Relation

variable {S R : Type} [LT R] [DecidableLT R] {P : S → Prop} {E : Fault → Prop} {m : Move Generator S}

namespace Search

variable [LE R] [DecidableLE R] {search : Search S R}

omit [LT R] [DecidableLT R] in
/-- A call sets out from its first state or from the best one of the calls before. -/
theorem seedBest_cases (best : Option (Scored S R)) (initial : Scored S R) :
    seedBest best initial = initial ∨ best = some (seedBest best initial) := by
  rw [seedBest.eq_def]
  split
  · exact .inl rfl
  · split
    · exact .inr rfl
    · exact .inl rfl

/-- **Calls keep what the moves keep.** -/
theorem iterateWith_best (hmove : search.move.Keeps P E) {arrive : Nat → Arrival S R}
    (harrive : ∀ number, (arrive number).IsHonest) (rounds : Nat) {initial : S}
    (hinitial : P initial) {progress : Progress S R}
    (hprogress : ∀ stored, progress.best = some stored → P stored.1) :
    ∃ best, (search.iterateWith arrive rounds initial progress).best = some best ∧ P best.1 := by
  refine playRounds_best hmove harrive rounds rounds 0 rfl ?_
  rcases seedBest_cases progress.best (initial, search.score initial) with hseed | hseed
  · rw [hseed]
    exact hinitial
  · exact hprogress _ hseed

end Search

/-- **Side by side, workers keep what their move keeps.** -/
theorem Crew.Reaches.best_of_keeps {crew : Crew S R}
    (hrecruit : ∀ cooling seed, (crew.recruit cooling seed).move = m) (hmove : m.Keeps P E)
    {initial : S} (hinitial : P initial) {s : Scene S R}
    (h : crew.Reaches (crew.opening initial) s) : P s.best.1 := by
  refine (h.holds (Q := fun b => P b.1) (fun {cooling seed seen _ _} hopening hrun => ?_)
    (sound_opening initial) (holds_opening hinitial)).best
  exact ((Annealer.meets_run (hrecruit cooling seed ▸ hmove) hopening _ seen).of_eq_ok hrun).best

variable [LE R] [DecidableLE R]

/-- **What moves keep is kept by all moves composed of them, by walks and by searches, and what
these come to has been reached by the composed move.** -/
theorem Move.Composed.kept_by_search {base : Move Generator S → Prop}
    (hbase : ∀ m, base m → m.Keeps P E) (hm : m.Composed base) {initial : S}
    (hinitial : P initial) :
    m.Keeps P E ∧
      (∀ a : Annealer Generator S R, a.move = m → ∀ steps cancelled,
        Meets (fun w => P w.best ∧ ReflTransGen m.Leads initial w.best) E
          (a.run steps initial cancelled)) ∧
      (∀ search : Search S R, search.move = m →
        ∀ arrive : Nat → Arrival S R, (∀ number, (arrive number).IsHonest) →
        ∀ (rounds : Nat) (progress : Progress S R),
          (∀ stored, progress.best = some stored → P stored.1) →
          ∃ best, (search.iterateWith arrive rounds initial progress).best = some best ∧
            P best.1 ∧
              ∃ origin, (origin = initial ∨ ∃ score, progress.best = some (origin, score)) ∧
                ReflTransGen m.Leads origin best.1) ∧
      ∀ crew : Crew S R, (∀ cooling seed, (crew.recruit cooling seed).move = m) →
        ∀ s, crew.Reaches (crew.opening initial) s →
          P s.best.1 ∧ ReflTransGen m.Leads initial s.best.1 := by
  have hkeeps := hm.keeps hbase
  -- to be reached from the first state is an invariant along with the given one
  have hreached := hkeeps.and_reached (· = initial)
  have hfirst : P initial ∧ ∃ origin, origin = initial ∧ ReflTransGen m.Leads origin initial :=
    ⟨hinitial, initial, rfl, .refl⟩
  refine ⟨hkeeps, ?_, ?_, ?_⟩
  · rintro a rfl steps cancelled
    refine (Annealer.meets_run hreached hfirst steps cancelled).imp fun w hw => ?_
    obtain ⟨hP, _, rfl, hleads⟩ := hw.best
    exact ⟨hP, hleads⟩
  · rintro search rfl arrive harrive rounds progress hprogress
    have horigin := hkeeps.and_reached fun origin =>
      origin = initial ∨ ∃ score, progress.best = some (origin, score)
    exact Search.iterateWith_best horigin harrive rounds ⟨hinitial, initial, .inl rfl, .refl⟩
      fun stored hstored => ⟨hprogress stored hstored, stored.1, .inr ⟨stored.2, hstored⟩, .refl⟩
  · intro crew hrecruit s hs
    obtain ⟨hP, _, rfl, hleads⟩ := Crew.Reaches.best_of_keeps hrecruit hreached hfirst hs
    exact ⟨hP, hleads⟩

/-! ## Searching with a pinned section -/

/-- What placing and exchanging starts preserves is kept by the moves on schedules. -/
theorem Preserved.keeps {G : Type} [RandomSource G] {p : Program} {book : Rulebook}
    {P : Schedule p → Prop} (hP : Preserved book P) (kind : MoveKind) :
    (kind.move (G := G) book).Keeps P fun _ => True := by
  intro s temperature rng hs
  cases hstep : kind.move book s temperature rng with
  | error f => trivial
  | ok step => exact hP.move hs hstep

namespace Contested

/-- The rules that guard the room and the teachers of pinned placements. -/
def guarded : RuleConfig := config [.duplicateSections, .teacherConflict, .roomConflict, .locked]

/-- Starts are placed by force and others exchanged, at most three times, until none is lost. -/
def forceAndSwap : Move Generator (Schedule program) :=
  .retry 3 (fun s t => s.count ≤ t.count) (.sequence
    [(MoveKind.destructive.move guarded.rulebook).scaled 0.5,
      MoveKind.swapping.move guarded.rulebook])

/-- Two workers look for schedules with many sections. -/
def search : Search (Schedule program) Nat where
  config := { workers := 2, steps := 100 }
  score := Schedule.count
  move := forceAndSwap
  acceptance := .greedy
  primary := CoolingKind.linear.cooling
  sub := CoolingKind.quadratic.cooling

theorem composed_forceAndSwap :
    forceAndSwap.Composed fun m => ∃ kind : MoveKind, m = kind.move guarded.rulebook := by
  refine .retry 3 _ (.sequence fun m hm => ?_)
  simp only [List.mem_cons, List.not_mem_nil, or_false] at hm
  rcases hm with rfl | rfl
  · exact .scaled 0.5 (.base ⟨_, rfl⟩)
  · exact .base ⟨_, rfl⟩

/-- To be reached by edits and to hold the pinned section where it is pinned. -/
def Guarded (s : Schedule program) : Prop :=
  Edits guarded.rulebook (.empty program) s ∧ HoldsPins [pin] s

theorem keeps_guarded (kind : MoveKind) :
    (kind.move (G := Generator) guarded.rulebook).Keeps Guarded fun _ => True :=
  Preserved.keeps (HoldsPins.preserved_rulebook (by decide) (by decide) (by decide) (by decide)
    (by decide) (by decide) (by decide)) kind

theorem guarded_held : Guarded held :=
  ⟨Edits.refl.add isOf_pinnedStart (isValid_pinnedStart _), holdsPins_held⟩

end Contested

open Contested in
theorem kept_by_search_pinned : ∃ best, (search.iterate 10 held {}).best = some best ∧
    HoldsPins [pin] best.1 ∧ ReflTransGen forceAndSwap.Leads held best.1 := by
  have hbase : ∀ m : Move Generator _, (∃ kind : MoveKind, m = kind.move guarded.rulebook) →
      m.Keeps Guarded fun _ => True := by
    rintro _ ⟨kind, rfl⟩
    exact keeps_guarded kind
  obtain ⟨-, -, hsearch, -⟩ := Move.Composed.kept_by_search (R := Nat) hbase composed_forceAndSwap
    guarded_held
  obtain ⟨best, hbest, hguarded, origin, rfl | ⟨score, hscore⟩, hleads⟩ :=
    hsearch search rfl (fun _ => .inOrder search.config.timeout)
      (fun _ => Arrival.inOrder_isHonest _) 10 {} nofun
  · exact ⟨best, hbest, hguarded.2, hleads⟩
  · cases hscore

end Timetable

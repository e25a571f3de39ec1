import Timetable.Proofs.Walk
import Timetable.Search.Rounds

/-!
# What moves keep, searches keep

The best state of a search is a state that it was given, or one that some worker of some round
brought back.  Whichever workers fail or are late, and in whatever order the others report, nothing
else can become of it, as long as nobody is said to have brought back what nobody found
(`Arrival.IsHonest`).

So a property that is kept by the moves of a search passes from the state it starts from to the best
state of a round (`Search.round_best`) and from round to round (`Search.playRounds_best`).
`Move.Composed.kept_by_search` puts this together with what is known of composed moves and of walks.
-/

set_option autoImplicit false

namespace Timetable

open Relation

variable {S R : Type}

/-! ## What is seen of a round -/

/-- Whatever is said to be brought back has been found by a worker. -/
def Arrival.IsHonest (arrive : Arrival S R) : Prop :=
  ∀ outcomes found, .result found ∈ arrive outcomes →
    ∃ elapsed, .finished found elapsed ∈ outcomes

/-- A result that comes of the outcomes one by one is that of a worker, if nothing else becomes of a
worker than its own result. -/
theorem exists_finished_of_mem_filterMap {report : Outcome S R → Option (Event S R)}
    (hfinished : ∀ best elapsed, ∀ e ∈ report (.finished best elapsed), e = .result best)
    (hfailed : ∀ found, report .failed ≠ some (.result found)) {outcomes : List (Outcome S R)}
    {found : Scored S R} (h : .result found ∈ outcomes.filterMap report) :
    ∃ elapsed, .finished found elapsed ∈ outcomes := by
  obtain ⟨o, ho, he⟩ := List.mem_filterMap.1 h
  cases o with
  | failed => exact absurd he (hfailed found)
  | finished best elapsed =>
    cases hfinished best elapsed _ he
    exact ⟨elapsed, ho⟩

theorem Arrival.inOrder_isHonest (timeout : Nat) : (inOrder timeout : Arrival S R).IsHonest := by
  intro outcomes found h
  unfold inOrder at h
  extract_lets onTime late at h
  have hparts : .result found ∈ onTime ∨ .result found ∈ late := by
    split at h
    · exact .inl h
    · simpa only [List.mem_append, List.mem_cons, reduceCtorEq, false_or] using h
  rcases hparts with hmem | hmem
  · refine exists_finished_of_mem_filterMap (fun best elapsed e he => ?_)
      (fun found he => by cases he) hmem
    simpa [eq_comm] using And.right (Option.ite_none_right_eq_some.1 he)
  · refine exists_finished_of_mem_filterMap (fun best elapsed e he => ?_)
      (fun found he => by cases he) hmem
    simpa [eq_comm] using And.right (Option.ite_none_left_eq_some.1 he)

section Settle

variable [LT R] [DecidableLT R] {Q : Scored S R → Prop}

theorem keepBetter_cases (best found : Scored S R) :
    keepBetter best found = best ∨ best.2 < found.2 ∧ keepBetter best found = found := by
  rw [keepBetter]
  split
  · exact .inr ⟨‹_›, rfl⟩
  · exact .inl rfl

/-- The best state after a round is the one before or one that was brought back. -/
theorem settle_best {best : Scored S R} (hbest : Q best) {events : List (Event S R)}
    (hevents : ∀ found, .result found ∈ events → Q found) : Q (settle best events).1 := by
  induction events generalizing best with
  | nil => exact hbest
  | cons e events ih =>
    have hrest : ∀ found, .result found ∈ events → Q found := fun found hf =>
      hevents found (List.mem_cons_of_mem e hf)
    cases e with
    | deadline => exact hbest
    | loss => exact ih hbest hrest
    | result found =>
      rw [settle]
      refine ih ?_ hrest
      rcases keepBetter_cases best found with hk | ⟨-, hk⟩
      · rwa [hk]
      · rw [hk]
        exact hevents found List.mem_cons_self

end Settle

/-! ## Searches -/

namespace Search

variable [LT R] [DecidableLT R] {search : Search S R} {P : S → Prop} {E : Fault → Prop}

/-- What a worker finds has what the moves keep. -/
theorem of_outcome_eq_finished (hmove : search.move.Keeps P E) {temperature : Float} {start : S}
    (hstart : P start) {seed : UInt64} {found : Scored S R} {elapsed : Nat}
    (h : search.outcome temperature start seed = .finished found elapsed) :
    P found.1 ∧ found.2 = search.score found.1 := by
  rw [outcome] at h
  split at h
  · next w hw =>
    cases h
    have hsees := (Annealer.meets_run (a := search.annealer temperature seed) hmove hstart
      search.config.steps fun _ => false).of_eq_ok hw
    exact ⟨hsees.best, hsees.bestScore_eq⟩
  · cases h

/-- **A round keeps what the moves keep.** -/
theorem round_best (hmove : search.move.Keeps P E) {arrive : Arrival S R}
    (harrive : arrive.IsHonest) (number : Nat) (temperature : Float) {best : Scored S R}
    (hbest : P best.1) (progress : Progress S R) :
    ∃ after, (search.round arrive number temperature best progress).1.best = some after ∧
      P after.1 := by
  refine ⟨_, rfl, settle_best (Q := fun b => P b.1) hbest fun found hfound => ?_⟩
  obtain ⟨elapsed, hfinished⟩ := harrive _ found hfound
  obtain ⟨seed, -, hseed⟩ := List.mem_map.1 hfinished
  exact (of_outcome_eq_finished hmove hbest hseed).1

/-- **Rounds keep what the moves keep.** -/
theorem playRounds_best (hmove : search.move.Keeps P E) {arrive : Nat → Arrival S R}
    (harrive : ∀ number, (arrive number).IsHonest) (total todo idle : Nat) {best : Scored S R}
    {progress : Progress S R} (hprogress : progress.best = some best) (hbest : P best.1) :
    ∃ after, (search.playRounds arrive total todo idle best progress).best = some after ∧
      P after.1 := by
  induction todo generalizing idle best progress with
  | zero => exact ⟨best, hprogress, hbest⟩
  | succ todo ih =>
    rw [playRounds]
    obtain ⟨after, hafter, hP⟩ := round_best hmove (harrive (total - (todo + 1)))
      (total - (todo + 1)) (search.primary (total - (todo + 1)) total) hbest progress
    simp only [hafter, Option.getD_some]
    split
    · exact ih 0 hafter hP
    · split
      · exact ⟨after, hafter, hP⟩
      · exact ih _ hafter hP

end Search

end Timetable

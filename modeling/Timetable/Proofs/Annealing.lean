import Timetable.Proofs.FirstBest
import Timetable.Proofs.Walk
import Timetable.Search.IntegerWalk

/-!
# What a walk returns

A walk keeps four things in step: where it stands, the best state so far and the scores of the two.
This file says what a walk does without reference to what it keeps.

* `Annealer.Path`: the candidates of a walk, each made from the state that was accepted last, and
  each accepted or not according to the scores of this state and its own.
* `Annealer.champion`: what is left of the states of a path, if a state gives way to those that beat
  it and to no others.
* `Annealer.meets_walkFrom`: every walk follows a path until it is cancelled, and its best state is
  the champion.

What is special about the champion depends on the order of the scores, in the way
`Timetable.Proofs.FirstBest` says.
-/

set_option autoImplicit false

namespace Timetable

namespace Annealer

variable {G S R : Type} [LT R] [DecidableLT R] {a : Annealer G S R} {initial c x : S}
  {candidates : List S} {total first : Nat}

/-! ## Champions -/

/-- What is left of a state if it gives way to each candidate that beats it. -/
def champion (a : Annealer G S R) (initial : S) (candidates : List S) : S :=
  candidates.foldl (fun best c => if a.score best < a.score c then c else best) initial

theorem champion_mem : a.champion initial candidates ∈ initial :: candidates := firstBest_mem

section Order

variable (hirrefl : ∀ x : R, ¬ x < x) (htrans : ∀ x y z : R, x < y → y < z → x < z)

include hirrefl htrans

/-- **Nobody beats the champion.** -/
theorem not_lt_champion (hx : x ∈ initial :: candidates) :
    ¬ a.score (a.champion initial candidates) < a.score x :=
  not_lt_firstBest hirrefl htrans hx

/-- **The champion beats all before it**, if whenever a score beats another one, any third one beats
the lower or is beaten by the higher of the two. -/
theorem exists_eq_append_champion
    (htotal : ∀ x ∈ initial :: candidates, ∀ y ∈ initial :: candidates, ∀ z ∈ initial :: candidates,
      a.score x < a.score z → a.score x < a.score y ∨ a.score y < a.score z) :
    ∃ before after, initial :: candidates = before ++ a.champion initial candidates :: after ∧
      ∀ x ∈ before, a.score x < a.score (a.champion initial candidates) :=
  exists_eq_append_firstBest hirrefl htrans htotal

end Order

/-! ## Paths -/

/-- A walk that is about to make the step with a number out of so many, from a state and with a
generator, may see these candidates and come to another state and generator.  Each candidate is made
from the state that was accepted last, and it is that from then on if it is accepted itself. -/
inductive Path (a : Annealer G S R) (total : Nat) :
    Nat → S → G → List S → S → G → Prop
  | nil {step : Nat} {s : S} {rng : G} : Path a total step s rng [] s rng
  | accept {step : Nat} {s t : S} {rng rng' rng'' : G} {next : Step G S}
    {candidates : List S} :
    a.move s (a.cooling step total) rng = .ok next →
    a.acceptance (a.score s) (a.score next.state) (a.cooling step total) next.rng = (true, rng') →
    Path a total (step + 1) next.state rng' candidates t rng'' →
    Path a total step s rng (next.state :: candidates) t rng''
  | reject {step : Nat} {s t : S} {rng rng' rng'' : G} {next : Step G S}
    {candidates : List S} :
    a.move s (a.cooling step total) rng = .ok next →
    a.acceptance (a.score s) (a.score next.state) (a.cooling step total) next.rng = (false, rng') →
    Path a total (step + 1) s rng' candidates t rng'' →
    Path a total step s rng (next.state :: candidates) t rng''

/-- So many steps can be made from the first one on: there are as many, and none is cancelled. -/
structure Goes (cancelled : Nat → Bool) (total first made : Nat) : Prop where
  le : first + made ≤ total
  going : ∀ i < made, cancelled (first + i) = false

theorem goes_zero {cancelled : Nat → Bool} (h : first ≤ total) : Goes cancelled total first 0 :=
  ⟨h, fun i hi => absurd hi i.not_lt_zero⟩

theorem Goes.step {cancelled : Nat → Bool} {made : Nat} (hgoing : cancelled first = false)
    (h : Goes cancelled total (first + 1) made) : Goes cancelled total first (made + 1) where
  le := by
    have hle := h.le
    omega
  going i hi := by
    cases i with
    | zero => exact hgoing
    | succ i =>
      rw [← Nat.succ_add_eq_add_succ]
      exact h.going i (Nat.lt_of_succ_lt_succ hi)

/-- A walk that has made so many steps has no more to make, or is cancelled before the next one. -/
def Stops (cancelled : Nat → Bool) (total made : Nat) : Prop := made = total ∨ cancelled made = true

/-- A walk comes to a step whose move fails, and it is not cancelled before. -/
def Fails (a : Annealer G S R) (cancelled : Nat → Bool) (total first : Nat) (s : S) (rng : G)
    (f : Fault) : Prop :=
  ∃ candidates t rng', a.Path total first s rng candidates t rng' ∧
    Goes cancelled total first (candidates.length + 1) ∧
    a.move t (a.cooling (first + candidates.length) total) rng' = .error f

/-- The scores that are kept are those of the states they are kept with. -/
structure Scores (a : Annealer G S R) (w : Walk G S R) : Prop where
  currentScore_eq : w.currentScore = a.score w.current
  bestScore_eq : w.bestScore = a.score w.best

omit [LT R] [DecidableLT R] in
theorem scores_begin : a.Scores (a.begin initial) := ⟨rfl, rfl⟩

/-- From the step with this number on a walk leads to another one by way of some candidates. -/
structure Leads (a : Annealer G S R) (cancelled : Nat → Bool) (total first : Nat) (w w' : Walk G S R)
    (candidates : List S) : Prop where
  path : a.Path total first w.current w.rng candidates w'.current w'.rng
  goes : Goes cancelled total first candidates.length
  stops : Stops cancelled total (first + candidates.length)
  scored_eq : w'.scored = candidates.reverse ++ w.scored
  best_eq : w'.best = a.champion w.best candidates
  bestScore_eq : w'.bestScore = a.score w'.best

theorem Scores.leads_nil {cancelled : Nat → Bool} {w : Walk G S R} (h : a.Scores w)
    (hle : first ≤ total) (hstops : Stops cancelled total first) :
    a.Leads cancelled total first w w [] :=
  ⟨.nil, goes_zero hle, hstops, rfl, rfl, h.bestScore_eq⟩

variable {w w' : Walk G S R} {step : Step G S} {temperature : Float}

theorem Scores.consider (h : a.Scores w) : a.Scores (a.consider w temperature step) where
  currentScore_eq := by
    simp only [Annealer.consider]
    split
    · rfl
    · exact h.currentScore_eq
  bestScore_eq := bestScore_consider h.bestScore_eq temperature step

theorem best_consider (h : a.Scores w) :
    (a.consider w temperature step).best = a.champion w.best [step.state] := by
  simp only [Annealer.consider, h.bestScore_eq, decide_eq_true_eq]
  rfl

theorem consider_of_acceptance (h : a.Scores w) {accepted : Bool} {rng : G}
    (hacc : a.acceptance (a.score w.current) (a.score step.state) temperature step.rng =
      (accepted, rng)) :
    (a.consider w temperature step).current = (if accepted then step.state else w.current) ∧
      (a.consider w temperature step).rng = rng := by
  rw [← h.currentScore_eq] at hacc
  have hcurrent : (a.consider w temperature step).current =
      if (a.acceptance w.currentScore (a.score step.state) temperature step.rng).1 then step.state
      else w.current := rfl
  have hrng : (a.consider w temperature step).rng =
      (a.acceptance w.currentScore (a.score step.state) temperature step.rng).2 := rfl
  rw [hcurrent, hrng, hacc]
  exact ⟨rfl, rfl⟩

/-- The path that is left once a candidate is considered goes on from the state accepted last. -/
theorem Path.of_consider (h : a.Scores w)
    (hstep : a.move w.current (a.cooling first total) w.rng = .ok step) {t : S} {rng : G}
    (hpath : a.Path total (first + 1) (a.consider w (a.cooling first total) step).current
      (a.consider w (a.cooling first total) step).rng candidates t rng) :
    a.Path total first w.current w.rng (step.state :: candidates) t rng := by
  cases hacc : a.acceptance (a.score w.current) (a.score step.state) (a.cooling first total)
      step.rng with
  | mk accepted rng =>
    obtain ⟨hcurrent, hrng⟩ := consider_of_acceptance h hacc
    rw [hcurrent, hrng] at hpath
    cases accepted with
    | true => exact .accept hstep hacc hpath
    | false => exact .reject hstep hacc hpath

section Consider

variable {cancelled : Nat → Bool} (hw : a.Scores w) (hgoing : cancelled first = false)
  (hstep : a.move w.current (a.cooling first total) w.rng = .ok step)

include hw hgoing hstep

/-- **What is considered in a step comes first on the path.** -/
theorem Leads.of_consider
    (h : a.Leads cancelled total (first + 1) (a.consider w (a.cooling first total) step) w'
      candidates) :
    a.Leads cancelled total first w w' (step.state :: candidates) where
  path := .of_consider hw hstep h.path
  goes := h.goes.step hgoing
  stops := Nat.succ_add_eq_add_succ first _ ▸ h.stops
  scored_eq := by
    rw [h.scored_eq, List.reverse_cons, List.append_assoc]
    rfl
  best_eq := by
    rw [h.best_eq, best_consider hw]
    rfl
  bestScore_eq := h.bestScore_eq

/-- What fails after a step fails. -/
theorem Fails.of_consider {f : Fault}
    (h : a.Fails cancelled total (first + 1) (a.consider w (a.cooling first total) step).current
      (a.consider w (a.cooling first total) step).rng f) :
    a.Fails cancelled total first w.current w.rng f := by
  obtain ⟨candidates, t, rng, hpath, hgoes, hfault⟩ := h
  refine ⟨step.state :: candidates, t, rng, .of_consider hw hstep hpath, hgoes.step hgoing, ?_⟩
  rw [List.length_cons, ← Nat.succ_add_eq_add_succ]
  exact hfault

end Consider

/-- **A walk follows a path until it is cancelled, or a move fails.** -/
theorem meets_walkFrom (cancelled : Nat → Bool) {todo : Nat} (htodo : first + todo = total)
    (hw : a.Scores w) :
    Meets (fun w' => ∃ candidates, a.Leads cancelled total first w w' candidates)
      (a.Fails cancelled total first w.current w.rng) (a.walkFrom cancelled total todo w) := by
  induction todo generalizing w first with
  | zero => exact ⟨[], hw.leads_nil (Nat.le_of_eq htodo) (.inl htodo)⟩
  | succ todo ih =>
    have hlt : first < total := by omega
    rw [walkFrom, show total - (todo + 1) = first by omega]
    split
    next hcancelled => exact ⟨[], hw.leads_nil (Nat.le_of_lt hlt) (.inr hcancelled)⟩
    next hgoing =>
      rw [Bool.not_eq_true] at hgoing
      cases hstep : a.move w.current (a.cooling first total) w.rng with
      | error f =>
        rw [advance, hstep]
        exact ⟨[], _, _, .nil, (goes_zero hlt).step hgoing, hstep⟩
      | ok step =>
        rw [advance, hstep]
        have htodo' : first + 1 + todo = total := by omega
        have hrest := (ih htodo' hw.consider).imp_error fun f => Fails.of_consider hw hgoing hstep
        refine hrest.imp fun w' hw' => ?_
        obtain ⟨candidates, hleads⟩ := hw'
        exact ⟨_, hleads.of_consider hw hgoing hstep⟩

/-- **A walk returns the best state it has seen**, along with its score, unless a move fails.  The
candidates are made from the state accepted last, and the walk goes on until it is cancelled. -/
theorem run_returns_best (hirrefl : ∀ x : R, ¬ x < x)
    (htrans : ∀ x y z : R, x < y → y < z → x < z) (a : Annealer G S R) (steps : Nat) (initial : S)
    (cancelled : Nat → Bool) :
    Meets (fun w => ∃ candidates, a.Path steps 0 initial a.rng candidates w.current w.rng ∧
        Goes cancelled steps 0 candidates.length ∧
        Stops cancelled steps candidates.length ∧
        w.scored.reverse = initial :: candidates ∧
        w.bestScore = a.score w.best ∧
        w.best ∈ initial :: candidates ∧
        (∀ x ∈ initial :: candidates, ¬ a.score w.best < a.score x) ∧
        ((∀ x ∈ initial :: candidates, ∀ y ∈ initial :: candidates, ∀ z ∈ initial :: candidates,
            a.score x < a.score z → a.score x < a.score y ∨ a.score y < a.score z) →
          ∃ before after, initial :: candidates = before ++ w.best :: after ∧
            ∀ x ∈ before, a.score x < a.score w.best))
      (a.Fails cancelled steps 0 initial a.rng) (a.run steps initial cancelled) := by
  have hbegin : a.Scores (a.begin initial) := scores_begin
  refine (meets_walkFrom cancelled (Nat.zero_add steps) hbegin).imp fun w hw => ?_
  obtain ⟨candidates, h⟩ := hw
  have hstops : Stops cancelled steps candidates.length := Nat.zero_add candidates.length ▸ h.stops
  refine ⟨candidates, h.path, h.goes, hstops, ?_, h.bestScore_eq, ?_, ?_, ?_⟩
  · rw [h.scored_eq, List.reverse_append, List.reverse_reverse]
    rfl
  · rw [h.best_eq]
    exact champion_mem
  · rw [h.best_eq]
    exact fun x => not_lt_champion hirrefl htrans
  · rw [h.best_eq]
    exact exists_eq_append_champion hirrefl htrans

end Annealer

namespace Staircase

/-- Climbs one by one, and falls back by five after each fifth step.  Whatever comes is accepted. -/
def annealer : Annealer Generator Int Int where
  score x := x % 5
  move := (Stride.fixed 1).move
  cooling := CoolingKind.linear.cooling
  acceptance _ _ _ rng := (true, rng)
  rng := .ofSeed 0

/-- The walk from 2 that is cancelled before the seventh step out of ten. -/
def walk : Except Fault (Walk Generator Int Int) := annealer.run 10 2 (· == 6)

end Staircase

open Staircase in
theorem run_returns_best_staircase : ∃ w, walk = .ok w ∧ w.best = 4 ∧ w.bestScore = 4 ∧
    w.current = 8 ∧ w.scored.reverse = [2, 3, 4, 5, 6, 7, 8] ∧
    (∀ x ∈ w.scored.reverse, ¬ w.bestScore < annealer.score x) ∧
    ∃ before after, w.scored.reverse = before ++ w.best :: after ∧
      ∀ x ∈ before, annealer.score x < annealer.score w.best := by
  have hbest := Annealer.run_returns_best Int.lt_irrefl (fun _ _ _ => Int.lt_trans) annealer 10 2
    (· == 6)
  obtain ⟨w, hw⟩ : ∃ w, walk = .ok w := ⟨_, rfl⟩
  obtain ⟨candidates, -, -, -, hscored, hscore, -, hnone, hfirst⟩ := hbest.of_eq_ok hw
  cases hw
  refine ⟨_, rfl, rfl, rfl, rfl, rfl, ?_, ?_⟩
  · rw [hscored, hscore]
    exact hnone
  · rw [hscored]
    exact hfirst fun x _ y _ z _ h => by omega

end Timetable

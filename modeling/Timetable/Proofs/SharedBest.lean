import Timetable.Proofs.Linearization
import Timetable.Search.IntegerWalk

/-!
# The best state only improves

Workers of several rounds compare what they found with the best state of the search at any time, in
any order, and some fail or are late.  `Crew.SharesBest` collects what nevertheless holds of every
scene of a search, and `Crew.Reaches.sharesBest` proves it: the best state is kept with its score,
it is replaced by better ones only, the scores in the history do not fall, the workers of a round
start from the best state when the round began, and once a round is over nothing comes of its
workers.

All that is asked of the scores is that nothing is better than itself, and that what is better than
a better one is better.
-/

set_option autoImplicit false

namespace Timetable

open Relation

variable {S R : Type} [LT R] [DecidableLT R]

/-- The scores that are on record, the last one first: that of the best state, those in the history,
and that of the first state. -/
def Crew.record (crew : Crew S R) (initial : S) (s : Scene S R) : List R :=
  s.best.2 :: (s.history.map (·.bestScore) ++ [crew.score initial])

/-- What holds of every scene of a search that set out from `initial`. -/
structure Crew.SharesBest (crew : Crew S R) (initial : S) (s : Scene S R) : Prop where
  /-- The best state is kept with its score. -/
  paired : s.best.2 = crew.score s.best.1
  /-- Whoever makes a step leaves the best state alone or replaces it by a better one. -/
  improves : ∀ {turn t}, crew.Step s turn t → t.best = s.best ∨ s.best.2 < t.best.2
  /-- The best score after a round is never below one before, nor below that of the first state. -/
  record : (crew.record initial s).Pairwise fun later earlier => ¬ later < earlier
  /-- All workers that are ever sent out in the next round start from the state that is the best
  when it begins. -/
  start : ∀ {t u}, crew.Step s .begin t → crew.Reaches t u →
    ∃ r, u.rounds[s.rounds.length]? = some r ∧ ∀ w ∈ r.workers, w.start = s.best.1
  /-- When a round is over its workers leave the best state alone, whatever happens in between. -/
  quiet : ∀ {k r}, s.rounds[k]? = some r → r.stage.isOver → ∀ {t}, crew.Reaches s t →
    ∀ {i u}, crew.Step t (.act k i) u → u.best = t.best

namespace Crew

variable {crew : Crew S R} {initial : S} {s t : Scene S R} {turn : Turn}

/-- The score of a worker's find is that of the state it has found. -/
theorem bestScore_run_recruit {cooling : Cooling} {seed : UInt64} {start : S} {seen : Nat → Bool}
    {steps : Nat} {walk : Walk Generator S R}
    (h : (crew.recruit cooling seed).run steps start seen = .ok walk) :
    walk.bestScore = crew.score walk.best := by
  have hkeeps : (crew.recruit cooling seed).move.Keeps (fun _ => True) (fun _ => True) := by
    intro s temperature rng _
    cases (crew.recruit cooling seed).move s temperature rng <;> trivial
  rw [← crew.score_recruit cooling seed]
  exact ((Annealer.meets_run hkeeps trivial steps seen).of_eq_ok h).bestScore_eq

theorem Reaches.paired (h : crew.Reaches (crew.opening initial) s) :
    s.best.2 = crew.score s.best.1 :=
  (h.holds (Q := fun b => b.2 = crew.score b.1) (fun _ hrun => bestScore_run_recruit hrun)
    (sound_opening initial) (holds_opening rfl)).best

/-- A score is as good as another one, or better. -/
def AtLeast (x y : R) : Prop := y = x ∨ y < x

section Order

variable (hirrefl : ∀ x : R, ¬ x < x) (htrans : ∀ x y z : R, x < y → y < z → x < z)

omit [DecidableLT R] in
include htrans in
theorem AtLeast.trans {x y z : R} (hxy : AtLeast x y) (hyz : AtLeast y z) : AtLeast x z := by
  rcases hxy with rfl | hxy
  · exact hyz
  · rcases hyz with rfl | hyz
    · exact .inr hxy
    · exact .inr (htrans z y x hyz hxy)

omit [DecidableLT R] in
include hirrefl htrans in
theorem AtLeast.not_lt {x y : R} (h : AtLeast x y) : ¬ x < y := by
  intro hlt
  rcases h with rfl | h
  · exact hirrefl y hlt
  · exact hirrefl x (htrans x y x hlt h)

/-- **A step replaces the best state only by a better one.** -/
theorem Step.best_eq_or_lt (h : crew.Step s turn t) (hs : crew.Sound s.rounds) :
    t.best = s.best ∨ s.best.2 < t.best.2 := by
  rcases h.best_cases hs with hbest | ⟨_, _, _, _, _, -, himproves⟩
  · exact .inl hbest
  · exact .inr (himproves.best ▸ himproves.lt)

/-- What is entered into the history is the best score there is. -/
theorem Step.history_cases (h : crew.Step s turn t) : t.history = s.history ∨
    t.best = s.best ∧ ∃ report : RoundReport R, report.bestScore = s.best.2 ∧
      t.history = report :: s.history := by
  cases h with
  | close elapsed _ _ => exact .inr ⟨rfl, _, rfl, rfl⟩
  | _ => exact .inl rfl

include htrans in
/-- **No score that comes on record is below one that is there.** -/
theorem Step.record (h : crew.Step s turn t) (hs : crew.Sound s.rounds)
    (hrecord : (crew.record initial s).Pairwise AtLeast) :
    (crew.record initial t).Pairwise AtLeast := by
  obtain ⟨htop, hrest⟩ := List.pairwise_cons.1 hrecord
  rcases h.history_cases with hhistory | ⟨hbest, report, hscore, hhistory⟩
  · rw [Crew.record, hhistory]
    refine List.pairwise_cons.2 ⟨fun x hx => ?_, hrest⟩
    rcases h.best_eq_or_lt hs with hbest | hlt
    · exact hbest ▸ htop x hx
    · exact AtLeast.trans htrans (.inr hlt) (htop x hx)
  · rw [Crew.record, hhistory, hbest, List.map_cons, hscore]
    refine List.pairwise_cons.2 ⟨fun x hx => ?_, hrecord⟩
    rcases List.mem_cons.1 hx with rfl | hx
    · exact .inl rfl
    · exact htop x hx

include htrans in
theorem Reaches.record (h : crew.Reaches (crew.opening initial) s) :
    (crew.record initial s).Pairwise AtLeast := by
  induction h with
  | refl => simp [Crew.record, opening, AtLeast]
  | tail hreach hstep ih =>
    exact hstep.choose_spec.record htrans (Reaches.sound hreach (sound_opening initial)) ih

end Order

/-- The workers of the round that begins with a step start from the state that was the best then. -/
theorem Step.start_of_begin (h : crew.Step s .begin t) (hs : crew.Sound s.rounds) {u : Scene S R}
    (hreach : crew.Reaches t u) :
    ∃ r, u.rounds[s.rounds.length]? = some r ∧ ∀ w ∈ r.workers, w.start = s.best.1 := by
  have hu := Reaches.sound hreach (h.sound hs)
  cases h with
  | begin temperature _ =>
    obtain ⟨r, hr, hbecomes⟩ :=
      Reaches.becomes hreach (getElem?_concat_eq_some_iff.2 (.inr ⟨rfl, rfl⟩))
    refine ⟨r, hr, fun w hw => ?_⟩
    obtain ⟨i, hi⟩ := List.mem_iff_getElem?.1 hw
    rw [((hu.round hr).recruited hi).2, hbecomes.opening]

/-- **The best state of a search is shared as it should be, in whatever order things happen.**

This is about a single call, which sets out from one state and finds no best state there.  One that
is left of a call before is compared in advance and not in a step (`Search.seedBest`). -/
theorem Reaches.sharesBest (hirrefl : ∀ x : R, ¬ x < x)
    (htrans : ∀ x y z : R, x < y → y < z → x < z) (h : crew.Reaches (crew.opening initial) s) :
    crew.SharesBest initial s where
  paired := h.paired
  improves hstep := hstep.best_eq_or_lt (h.sound (sound_opening initial))
  record := (h.record htrans).imp (AtLeast.not_lt hirrefl htrans)
  start hstep hreach := hstep.start_of_begin (h.sound (sound_opening initial)) hreach
  quiet {k r} hr hover {t} hreach {i u} hstep := by
    obtain ⟨r', hr', hbecomes⟩ := hreach.becomes hr
    have ht := hreach.sound (h.sound (sound_opening initial))
    exact hstep.best_of_isOver ht hr' (hbecomes.isOver hover)

end Crew

/-- **The history of a search that is played round by round never falls.** -/
theorem Search.record_iterate [LE R] [DecidableLE R] (hirrefl : ∀ x : R, ¬ x < x)
    (htrans : ∀ x y z : R, x < y → y < z → x < z) (search : Search S R) (rounds : Nat)
    (initial : S) : ∃ best, (search.iterate rounds initial {}).best = some best ∧
      best.2 = search.score best.1 ∧
      (best.2 :: ((search.iterate rounds initial {}).history.map (·.bestScore) ++
        [search.score initial])).Pairwise fun later earlier => ¬ later < earlier := by
  obtain ⟨s, hreach, hs⟩ := search.exists_reaches_iterateWith
    (fun _ => Arrival.inOrder_reportsOnce search.config.timeout) rounds initial
  refine ⟨s.best, hs.best, hreach.paired, ?_⟩
  rw [iterate, hs.history]
  exact (hreach.record htrans).imp (Crew.AtLeast.not_lt hirrefl htrans)

/-! ## A late worker -/

namespace Climbers

/-- Three workers who climb two steps in each round. -/
def crew : Crew Int Int where
  config := { workers := 3, steps := 2 }
  score := id
  sub := CoolingKind.linear.cooling
  recruit cooling seed :=
    { score := id, move := (Stride.fixed 1).move, cooling, acceptance := .greedy
      rng := .ofSeed seed }
  score_recruit _ _ := rfl

/-- One worker reports, one fails, and one is late and still there when the next round has begun. -/
theorem exists_lateWorker : ∃ s, crew.Reaches (crew.opening 0) s ∧ s.best = (2, 2) ∧
    s.history.map (·.bestScore) = [2] ∧ s.rounds.map (·.cancelled) = [true, false] := by
  have h : crew.Reaches (crew.opening 0) (crew.opening 0) := .refl
  replace h := h.step (.begin 1.0 fun r hr => by cases hr)
  replace h := h.step (.coordinate (k := 0) rfl (.send rfl (by decide)))
  replace h := h.step (.coordinate (k := 0) rfl (.send rfl (by decide)))
  replace h := h.step (.coordinate (k := 0) rfl (.send rfl (by decide)))
  replace h := h.step (.coordinate (k := 0) rfl (.await rfl rfl))
  -- the first worker takes both of its steps
  replace h := h.step (.act (k := 0) (i := 0) rfl rfl (.finish rfl (fun _ _ => rfl) rfl))
  replace h := h.step (.act (k := 0) (i := 0) rfl rfl (.offer rfl rfl))
  replace h := h.step (.act (k := 0) (i := 0) rfl rfl (.report rfl))
  replace h := h.step (.act (k := 0) (i := 1) rfl rfl (.fail rfl))
  replace h := h.step (.coordinate (k := 0) rfl (.receive rfl (by decide) rfl))
  replace h := h.step (.coordinate (k := 0) rfl (.deadline rfl (by decide)))
  replace h := h.step (.close (k := 0) 1 rfl rfl)
  replace h := h.step (.begin 0.5 fun r hr => by cases List.mem_singleton.1 hr; rfl)
  -- the last worker sees the flag before its second step
  replace h := h.step (.act (k := 0) (i := 2) rfl rfl (.finish rfl
    (fun hraised => absurd hraised (by decide) : true = false → ∀ step, (step == 1) = false) rfl))
  replace h := h.step (.act (k := 0) (i := 2) rfl rfl (.leave rfl rfl))
  exact ⟨_, h, rfl, rfl, rfl⟩

end Climbers

theorem sharesBest_lateWorker : ∃ s, Climbers.crew.Reaches (Climbers.crew.opening 0) s ∧
    s.best = (2, 2) ∧ s.history.map (·.bestScore) = [2] ∧
    s.rounds.map (·.cancelled) = [true, false] ∧ Climbers.crew.SharesBest 0 s := by
  obtain ⟨s, h, hbest, hhistory, hcancelled⟩ := Climbers.exists_lateWorker
  exact ⟨s, h, hbest, hhistory, hcancelled,
    h.sharesBest Int.lt_irrefl fun _ _ _ => Int.lt_trans⟩

end Timetable

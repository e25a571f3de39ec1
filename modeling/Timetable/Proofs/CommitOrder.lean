import Mathlib.Data.List.Nodup
import Timetable.Proofs.FirstBest
import Timetable.Proofs.SharedBest

/-!
# The order in which results are committed

The workers of a round commit their results in whatever order they come about: each is compared with
the best state there is at that moment and takes the place of it if its score is higher.  So much
depends on luck in a search that it matters that this does not.

What a round makes of the best state is the first of the best among that state and what is committed
(`settle_eq`, `Crew.Commits.best_eq`), and if scores are totally ordered, the first of the best
depends on the order in one respect only: which of several equally good states it is
(`settlesAlike_of_perm`).  `commit_order_irrelevant` says so of rounds that are played one event
after the other and of rounds that are played step by step.
-/

set_option autoImplicit false

namespace Timetable

variable {S R : Type}

/-! ## What is committed -/

/-- The results that count among the events of a round: those before the deadline. -/
def committed : List (Event S R) → List (Scored S R)
  | [] => []
  | .deadline :: _ => []
  | .loss :: rest => committed rest
  | .result found :: rest => found :: committed rest

/-- What a worker commits if it acts. -/
def Worker.commit? (w : Worker S R) (cancelled : Bool) : Option (Scored S R) :=
  match w.phase with
  | .offering found => if cancelled then none else some found
  | _ => none

/-- What is committed if it is somebody's turn. -/
def Scene.commits (s : Scene S R) : Crew.Turn → List (Scored S R)
  | .act k i =>
    (s.rounds[k]?.bind fun r => r.workers[i]?.bind fun w => w.commit? r.cancelled).toList
  | _ => []

variable [LT R] [DecidableLT R] {best after after' : Scored S R} {found found' : List (Scored S R)}

/-- **The events of a round leave the first of the best.** -/
theorem settle_eq (best : Scored S R) (events : List (Event S R)) :
    settle best events = (firstBest (·.2) best (committed events), (committed events).length) := by
  induction events generalizing best with
  | nil => rfl
  | cons e events ih =>
    cases e with
    | deadline => rfl
    | loss => exact ih best
    | result found =>
      rw [settle, ih (keepBetter best found)]
      rfl

/-- Where scores are totally ordered, the first state of a call is entered in the way results are
committed. -/
theorem seedBest_eq [LE R] [DecidableLE R] (hle : ∀ x y : R, x ≤ y ↔ ¬ y < x)
    (best initial : Scored S R) : seedBest (some best) initial = keepBetter best initial := by
  rw [seedBest, keepBetter]
  by_cases hlt : best.2 < initial.2 <;> simp [hle, hlt]

/-- A worker commits what it has to offer, as long as the flag is not raised. -/
theorem Worker.Acts.best_eq {steps sent : Nat} {cancelled : Bool} {best' : Scored S R}
    {w w' : Worker S R} (h : w.Acts steps cancelled best w' best' sent) :
    best' = firstBest (·.2) best (w.commit? cancelled).toList := by
  cases h with
  | offer hphase hcancelled =>
    simp only [Worker.commit?, hphase, hcancelled]
    rfl
  | leave hphase hcancelled =>
    simp only [Worker.commit?, hphase, hcancelled]
    rfl
  | _ =>
    simp only [Worker.commit?, *]
    rfl

namespace Crew

variable {crew : Crew S R} {s t : Scene S R} {turn : Turn}

/-- **A step does no more to the best state than commit something.** -/
theorem Step.best_eq (h : crew.Step s turn t) :
    t.best = firstBest (·.2) s.best (s.commits turn) := by
  cases h with
  | act hr hw hact =>
    rw [Scene.commits, hr, Option.bind_some, hw, Option.bind_some]
    exact hact.best_eq
  | _ => rfl

/-- A search gets from one scene to another, and this is committed on the way, in this order. -/
inductive Commits (crew : Crew S R) (s : Scene S R) : List (Scored S R) → Scene S R → Prop
  | refl : Commits crew s [] s
  | step {found : List (Scored S R)} {t u : Scene S R} {turn : Turn} :
    Commits crew s found t → crew.Step t turn u → Commits crew s (found ++ t.commits turn) u

/-- However a search goes on, something is committed in some order. -/
theorem reaches_iff_exists_commits : crew.Reaches s t ↔ ∃ found, crew.Commits s found t := by
  constructor
  · intro h
    induction h with
    | refl => exact ⟨[], .refl⟩
    | tail _ hstep ih =>
      obtain ⟨found, hfound⟩ := ih
      exact ⟨_, hfound.step hstep.choose_spec⟩
  · rintro ⟨found, h⟩
    induction h with
    | refl => exact .refl
    | step _ hstep ih => exact ih.step hstep

/-- **Steps leave the first of the best.** -/
theorem Commits.best_eq (h : crew.Commits s found t) :
    t.best = firstBest (·.2) s.best found := by
  induction h with
  | refl => rfl
  | step _ hstep ih =>
    rw [hstep.best_eq, ih]
    exact List.foldl_append.symm

end Crew

/-! ## Different orders -/

/-- What is left of the best state after some results have been committed in one order or another
differs at most as far as it has to. -/
structure SettlesAlike (best : Scored S R) (found : List (Scored S R)) (after after' : Scored S R) :
    Prop where
  /-- The score is one of those there are. -/
  score_mem : after.2 ∈ best.2 :: found.map (·.2)
  /-- It is the greatest of them. -/
  not_lt : ∀ x ∈ best.2 :: found.map (·.2), ¬ after.2 < x
  score_eq : after'.2 = after.2
  /-- If the scores of the results are different, the states are the same. -/
  eq_of_nodup : (found.map (·.2)).Nodup → after' = after
  /-- Either both are better than the old one, or neither is. -/
  improves_iff : best.2 < after'.2 ↔ best.2 < after.2

section Order

variable (hirrefl : ∀ x : R, ¬ x < x) (htrans : ∀ x y z : R, x < y → y < z → x < z)

include hirrefl htrans

/-- **The first of the best is alike in every order.** -/
theorem settlesAlike_of_perm (hperm : found.Perm found')
    (htotal : ∀ x ∈ best.2 :: found.map (·.2), ∀ y ∈ best.2 :: found.map (·.2),
      x < y ∨ x = y ∨ y < x) :
    SettlesAlike best found (firstBest (·.2) best found) (firstBest (·.2) best found') := by
  have hmem : firstBest (·.2) best found ∈ best :: found := firstBest_mem
  have hmem' : firstBest (·.2) best found' ∈ best :: found :=
    (hperm.cons best).mem_iff.2 firstBest_mem
  have hscores : ∀ {y : Scored S R}, y ∈ best :: found → y.2 ∈ best.2 :: found.map (·.2) :=
    fun hy => List.mem_map_of_mem (f := fun y : Scored S R => y.2) hy
  have hscore : (firstBest (·.2) best found').2 = (firstBest (·.2) best found).2 := by
    rcases htotal _ (hscores hmem') _ (hscores hmem) with hlt | heq | hlt
    · exact absurd hlt (not_lt_firstBest hirrefl htrans ((hperm.cons best).mem_iff.1 hmem))
    · exact heq
    · exact absurd hlt (not_lt_firstBest hirrefl htrans hmem')
  refine ⟨hscores hmem, fun x hx => ?_, hscore, fun hnodup => ?_, by rw [hscore]⟩
  · obtain ⟨y, hy, rfl⟩ := List.mem_map.1 (show x ∈ (best :: found).map (·.2) from hx)
    exact not_lt_firstBest hirrefl htrans hy
  · have hcases : firstBest (·.2) best found = best ∨ best.2 < (firstBest (·.2) best found).2 :=
      firstBest_eq_or_lt htrans
    rcases hcases with hkept | hlt
    · -- the old best is the first of all that are as good, in whatever order
      rw [hkept] at hscore ⊢
      refine (firstBest_eq_or_lt htrans).resolve_right ?_
      rw [hscore]
      exact hirrefl best.2
    · have hne : firstBest (·.2) best found ≠ best := fun heq => hirrefl best.2 (by rwa [heq] at hlt)
      have hne' : firstBest (·.2) best found' ≠ best := fun heq => by
        rw [← hscore, heq] at hlt
        exact hirrefl best.2 hlt
      exact List.inj_on_of_nodup_map hnodup (List.mem_of_ne_of_mem hne' hmem')
        (List.mem_of_ne_of_mem hne hmem) hscore

/-- **The order in which the results of a round are committed does not matter**, neither to a round
that is told what is seen of it nor to one that comes about step by step. -/
theorem commit_order_irrelevant (best : Scored S R) (hperm : found.Perm found')
    (htotal : ∀ x ∈ best.2 :: found.map (·.2), ∀ y ∈ best.2 :: found.map (·.2),
      x < y ∨ x = y ∨ y < x) :
    (∀ events events' : List (Event S R), committed events = found → committed events' = found' →
      SettlesAlike best found (settle best events).1 (settle best events').1) ∧
    ∀ (crew : Crew S R) (s s' t t' : Scene S R), s.best = best → s'.best = best →
      crew.Commits s found t → crew.Commits s' found' t' →
        SettlesAlike best found t.best t'.best := by
  have halike := settlesAlike_of_perm hirrefl htrans hperm htotal
  constructor
  · intro events events' hevents hevents'
    rw [settle_eq, settle_eq, hevents, hevents']
    exact halike
  · intro crew s s' t t' hs hs' h h'
    rw [h.best_eq, h'.best_eq, hs, hs']
    exact halike

end Order

/-! ## Two workers, either of which is the first -/

namespace Rivals

/-- Two workers climb two steps, and the second one climbs higher. -/
def crew : Crew Int Int where
  config := { workers := 2, steps := 2 }
  score := id
  sub := CoolingKind.linear.cooling
  recruit cooling seed :=
    { score := id, move := (Stride.fixed (if seed = 0 then 1 else 3)).move, cooling
      acceptance := .greedy, rng := .ofSeed seed }
  score_recruit _ _ := rfl

/-- Once both have walked, either of them may commit what it has found before the other does. -/
theorem exists_bothOrders : ∃ t t', crew.Commits (crew.opening 0) [(2, 2), (6, 6)] t ∧
    crew.Commits (crew.opening 0) [(6, 6), (2, 2)] t' := by
  have h : crew.Commits (crew.opening 0) [] (crew.opening 0) := .refl
  replace h := h.step (.begin 1.0 fun r hr => by cases hr)
  replace h := h.step (.coordinate (k := 0) rfl (.send rfl (by decide)))
  replace h := h.step (.coordinate (k := 0) rfl (.send rfl (by decide)))
  replace h := h.step (.coordinate (k := 0) rfl (.await rfl rfl))
  replace h := h.step (.act (k := 0) (i := 0) rfl rfl (.finish rfl (fun _ _ => rfl) rfl))
  replace h := h.step (.act (k := 0) (i := 1) rfl rfl (.finish rfl (fun _ _ => rfl) rfl))
  have hfirst := (h.step (.act (k := 0) (i := 0) rfl rfl (.offer rfl rfl))).step
    (.act (k := 0) (i := 1) rfl rfl (.offer rfl rfl))
  have hsecond := (h.step (.act (k := 0) (i := 1) rfl rfl (.offer rfl rfl))).step
    (.act (k := 0) (i := 0) rfl rfl (.offer rfl rfl))
  exact ⟨_, _, hfirst, hsecond⟩

end Rivals

open Rivals in
theorem commit_order_irrelevant_rivals : ∃ t t',
    crew.Commits (crew.opening 0) [(2, 2), (6, 6)] t ∧
    crew.Commits (crew.opening 0) [(6, 6), (2, 2)] t' ∧ t.best = (6, 6) ∧ t'.best = t.best ∧
    (settle ((0, 0) : Scored Int Int)
        [.result (6, 6), .loss, .result (2, 2), .deadline, .result (7, 7)]).1 =
      (settle (0, 0) [.result (2, 2), .result (6, 6)]).1 := by
  obtain ⟨t, t', h, h'⟩ := exists_bothOrders
  have hperm : [((2, 2) : Scored Int Int), (6, 6)].Perm [(6, 6), (2, 2)] := .swap _ _ []
  have hrivals := commit_order_irrelevant Int.lt_irrefl (fun _ _ _ => Int.lt_trans) (0, 0) hperm
    fun x _ y _ => Int.lt_trichotomy x y
  have hsteps := hrivals.2 crew _ _ t t' rfl rfl h h'
  have hevents := hrivals.1 [.result (2, 2), .result (6, 6)]
    [.result (6, 6), .loss, .result (2, 2), .deadline, .result (7, 7)] rfl rfl
  exact ⟨t, t', h, h', h.best_eq.trans (by decide), hsteps.eq_of_nodup (by decide),
    hevents.eq_of_nodup (by decide)⟩

/-- Of equally good states the first one stays. -/
example : (settle ((0, 0) : Scored Int Int) [.result (2, 1), .result (6, 1)]).1 = (2, 1) ∧
    (settle ((0, 0) : Scored Int Int) [.result (6, 1), .result (2, 1)]).1 = (6, 1) := by decide

end Timetable

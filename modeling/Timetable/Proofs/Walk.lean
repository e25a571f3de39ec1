import Mathlib.Logic.Relation
import Timetable.Proofs.Outcome
import Timetable.Search.Annealer

/-!
# What moves keep, walks keep

A property of states is kept by a move (`Move.Keeps`) if the move, made from a state that has it, at
any temperature and whatever it draws, leads to a state that has it.  What is kept by moves is kept
by the moves that are composed of them (`Move.Composed.keeps`), and by the walks of an annealer:
both the state that a walk has come to and the best one it has seen have the property
(`Annealer.meets_run`).

A move may fail.  So along with the property of the states there is one of the faults, and what is
shown is that a failure is due to such a fault.  If no fault has it, then there are no failures.

That a state has been reached from another by a move made again and again is itself kept by the move
(`Move.Keeps.and_reached`), so a walk need not be looked at twice to see where its states come from.
-/

set_option autoImplicit false

namespace Timetable

open Relation

/-! ## Moves -/

namespace Move

variable {G S : Type} {P : S → Prop} {E : Fault → Prop} {m : Move G S}

/-- From states with the property `P` the move leads to states with this property, at all
temperatures and whatever is drawn, or it fails with a fault with the property `E`. -/
def Keeps (m : Move G S) (P : S → Prop) (E : Fault → Prop) : Prop :=
  ∀ s temperature rng, P s → Meets (fun step => P step.state) E (m s temperature rng)

/-- The move can lead from one state to another. -/
def Leads (m : Move G S) (s t : S) : Prop :=
  ∃ temperature rng step, m s temperature rng = .ok step ∧ step.state = t

/-- Having been reached from some first state is kept along with any other property. -/
theorem Keeps.and_reached (h : m.Keeps P E) (first : S → Prop) :
    m.Keeps (fun s => P s ∧ ∃ origin, first origin ∧ ReflTransGen m.Leads origin s) E := by
  rintro s temperature rng ⟨hs, origin, hfirst, horigin⟩
  have hmade := h s temperature rng hs
  cases hstep : m s temperature rng with
  | error f =>
    rw [hstep] at hmade
    exact hmade
  | ok step =>
    rw [hstep] at hmade
    exact ⟨hmade, origin, hfirst, horigin.tail ⟨temperature, rng, step, hstep, rfl⟩⟩

/-! ### Composed moves -/

/-- The move is put together of others. -/
inductive Composed (base : Move G S → Prop) : Move G S → Prop
  | base {m : Move G S} : base m → Composed base m
  | sequence {moves : List (Move G S)} : (∀ m ∈ moves, Composed base m) →
    Composed base (sequence moves)
  | scaled {m : Move G S} (factor : Float) : Composed base m → Composed base (m.scaled factor)
  | retry {m : Move G S} (attempts : Nat) (accept : S → S → Bool) : Composed base m →
    Composed base (m.retry attempts accept)

theorem Keeps.proceed (h : m.Keeps P E) (temperature : Float) {step : Step G S} (hs : P step.state) :
    Meets (fun next => P next.state) E (m.proceed temperature step) :=
  (h step.state temperature step.rng hs).map fun _ hnext => hnext

theorem keeps_sequence {moves : List (Move G S)} (h : ∀ m ∈ moves, m.Keeps P E) :
    (sequence moves).Keeps P E := by
  intro s temperature rng hs
  rw [sequence]
  generalize hstart : (⟨s, rng, 0⟩ : Step G S) = start
  replace hs : P start.state := hstart ▸ hs
  clear hstart
  induction moves generalizing start with
  | nil => exact hs
  | cons m moves ih =>
    rw [List.foldlM_cons]
    refine ((h m List.mem_cons_self).proceed temperature hs).bind fun next hnext => ?_
    exact ih (fun n hn => h n (List.mem_cons_of_mem m hn)) next hnext

theorem Keeps.retryFrom (h : m.Keeps P E) (accept : S → S → Bool) {s : S} (hs : P s)
    (temperature : Float) (attempts : Nat) {step : Step G S} (hstep : P step.state) :
    Meets (fun next => P next.state) E (Move.retryFrom accept m s temperature attempts step) := by
  induction attempts generalizing step with
  | zero => exact hstep
  | succ attempts ih =>
    rw [Move.retryFrom]
    -- every attempt begins where the first one did
    have hagain : Meets (fun next => P next.state) E
        (m.proceed temperature { step with state := s }) := h.proceed temperature hs
    refine hagain.bind fun next hnext => ?_
    split
    · exact hnext
    · exact ih hs

/-- **What moves keep is kept by every move composed of them.** -/
theorem Composed.keeps {base : Move G S → Prop} (hbase : ∀ m, base m → m.Keeps P E)
    (h : m.Composed base) : m.Keeps P E := by
  induction h with
  | base hm => exact hbase _ hm
  | sequence _ ih => exact keeps_sequence ih
  | scaled factor _ ih => exact fun s temperature rng hs => ih s (temperature * factor) rng hs
  | retry attempts accept _ ih =>
    exact fun s temperature rng hs => ih.retryFrom accept hs temperature attempts hs

end Move

/-! ## Walks -/

namespace Annealer

variable {G S R : Type} [LT R] [DecidableLT R] {a : Annealer G S R} {P : S → Prop} {E : Fault → Prop}

/-- The score that is kept with the best state stays that of this state. -/
theorem bestScore_consider {w : Walk G S R} (h : w.bestScore = a.score w.best) (temperature : Float)
    (step : Step G S) :
    (a.consider w temperature step).bestScore = a.score (a.consider w temperature step).best := by
  simp only [Annealer.consider]
  split
  · rfl
  · exact h

/-- The states that are kept along a walk have the property `P`, and the score that is kept with the
best state is that of this state. -/
structure Sees (a : Annealer G S R) (P : S → Prop) (w : Walk G S R) : Prop where
  current : P w.current
  best : P w.best
  bestScore_eq : w.bestScore = a.score w.best

omit [LT R] [DecidableLT R] in
theorem sees_begin {initial : S} (h : P initial) : a.Sees P (a.begin initial) := ⟨h, h, rfl⟩

theorem Sees.consider {w : Walk G S R} (h : a.Sees P w) (temperature : Float) {step : Step G S}
    (hstep : P step.state) : a.Sees P (a.consider w temperature step) where
  current := by
    simp only [Annealer.consider]
    split
    · exact hstep
    · exact h.current
  best := by
    simp only [Annealer.consider]
    split
    · exact hstep
    · exact h.best
  bestScore_eq := bestScore_consider h.bestScore_eq temperature step

theorem Sees.advance (hmove : a.move.Keeps P E) {w : Walk G S R} (h : a.Sees P w)
    (temperature : Float) : Meets (a.Sees P) E (a.advance temperature w) :=
  (hmove w.current temperature w.rng h.current).map fun _ hstep => h.consider temperature hstep

theorem Sees.walkFrom (hmove : a.move.Keeps P E) (cancelled : Nat → Bool) (total todo : Nat)
    {w : Walk G S R} (h : a.Sees P w) : Meets (a.Sees P) E (a.walkFrom cancelled total todo w) := by
  induction todo generalizing w with
  | zero => exact h
  | succ todo ih =>
    rw [Annealer.walkFrom]
    split
    · exact h
    · exact (h.advance hmove _).bind fun _ hw => ih hw

/-- **What the move of an annealer keeps is seen all along its walks, wherever they end.** -/
theorem meets_run (hmove : a.move.Keeps P E) {initial : S} (hinitial : P initial) (steps : Nat)
    (cancelled : Nat → Bool) : Meets (a.Sees P) E (a.run steps initial cancelled) :=
  (sees_begin hinitial).walkFrom hmove cancelled steps steps

end Annealer

end Timetable

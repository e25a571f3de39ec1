import Mathlib.Data.List.Induction

/-!
# The first of the best

Several parts of a search hold on to the best they have come across: a walk to a state, a search to
what its workers bring back.  All of them give up what they have for something that is better, and
for nothing else.  `firstBest` is what is left in the end, and this file says what it is as far as
the order of the scores allows.

* If nothing is better than itself, and what is better than something better is better, then nothing
  is better than what is left (`not_lt_firstBest`).  Something as good may have come before it, if
  its score compares to no others.
* If there are no such scores, what is left is better than all that came before it
  (`exists_eq_append_firstBest`).
-/

set_option autoImplicit false

namespace Timetable

variable {α R : Type} [LT R] [DecidableLT R] {score : α → R} {initial c x : α} {candidates : List α}

/-- What is left of something if it gives way to each candidate that is better. -/
def firstBest (score : α → R) (initial : α) (candidates : List α) : α :=
  candidates.foldl (fun best c => if score best < score c then c else best) initial

theorem firstBest_concat : firstBest score initial (candidates ++ [c]) =
    if score (firstBest score initial candidates) < score c then c
    else firstBest score initial candidates := by
  rw [firstBest, List.foldl_append]
  rfl

theorem firstBest_mem : firstBest score initial candidates ∈ initial :: candidates := by
  induction candidates using List.reverseRecOn with
  | nil => exact List.mem_cons_self
  | append_singleton candidates c ih =>
    rw [firstBest_concat, ← List.cons_append]
    split
    · exact List.mem_append_right _ (List.mem_singleton_self c)
    · exact List.mem_append_left _ ih

section Order

variable (hirrefl : ∀ x : R, ¬ x < x) (htrans : ∀ x y z : R, x < y → y < z → x < z)

include htrans

/-- What gives way does so for something better. -/
theorem firstBest_eq_or_lt : firstBest score initial candidates = initial ∨
    score initial < score (firstBest score initial candidates) := by
  induction candidates using List.reverseRecOn with
  | nil => exact .inl rfl
  | append_singleton candidates c ih =>
    rw [firstBest_concat]
    split
    next hlt =>
      rcases ih with heq | hbetter
      · exact .inr (heq ▸ hlt)
      · exact .inr (htrans _ _ _ hbetter hlt)
    next => exact ih

include hirrefl

/-- **Nothing is better than the first of the best.** -/
theorem not_lt_firstBest (hx : x ∈ initial :: candidates) :
    ¬ score (firstBest score initial candidates) < score x := by
  induction candidates using List.reverseRecOn with
  | nil =>
    cases List.mem_singleton.1 hx
    exact hirrefl _
  | append_singleton candidates c ih =>
    rw [← List.cons_append, List.mem_append, List.mem_singleton] at hx
    rw [firstBest_concat]
    split
    next hlt =>
      rcases hx with hx | rfl
      · exact fun hbeaten => ih hx (htrans _ _ _ hlt hbeaten)
      · exact hirrefl _
    next hge =>
      rcases hx with hx | rfl
      · exact ih hx
      · exact hge

/-- **The first of the best is better than all before it**, if whenever a score is below another
one, any third one is above the lower or below the higher of the two. -/
theorem exists_eq_append_firstBest
    (htotal : ∀ x ∈ initial :: candidates, ∀ y ∈ initial :: candidates, ∀ z ∈ initial :: candidates,
      score x < score z → score x < score y ∨ score y < score z) :
    ∃ before after, initial :: candidates = before ++ firstBest score initial candidates :: after ∧
      ∀ x ∈ before, score x < score (firstBest score initial candidates) := by
  induction candidates using List.reverseRecOn with
  | nil => exact ⟨[], [], rfl, fun x hx => absurd hx List.not_mem_nil⟩
  | append_singleton candidates c ih =>
    rw [← List.cons_append] at htotal ⊢
    have hold : ∀ {x}, x ∈ initial :: candidates → x ∈ initial :: candidates ++ [c] :=
      List.mem_append_left _
    rw [firstBest_concat]
    split
    next hlt =>
      refine ⟨initial :: candidates, [], rfl, fun x hx => ?_⟩
      -- the best so far is below `c` and not below `x`, so `x` is below `c`, too
      exact (htotal _ (hold firstBest_mem) x (hold hx) c
        (List.mem_append_right _ (List.mem_singleton_self c)) hlt).resolve_left
          (not_lt_firstBest hirrefl htrans hx)
    next hge =>
      obtain ⟨before, after, heq, hbefore⟩ := ih fun x hx y hy z hz =>
        htotal x (hold hx) y (hold hy) z (hold hz)
      refine ⟨before, after ++ [c], ?_, hbefore⟩
      rw [heq, List.append_assoc, List.cons_append]

end Order

end Timetable

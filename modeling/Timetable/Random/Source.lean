/-!
# Sources of random draws

Everything random is drawn from a source, which is passed along explicitly: a draw returns the value
drawn together with the source to go on with, so equal sources give equal runs.

No more is known of a `RandomSource` than that an index is below its bound and that an order of a
list is a reordering.  So what is said of all sources is said of everything that can be drawn, in
whatever way it is.

* `RandomSource.choose` draws a member of a list; a member it is, by `mem_of_choose`.
-/

set_option autoImplicit false

namespace Timetable

/-- A type of sources of random draws. -/
class RandomSource (G : Type) where
  /-- Draws an index below `n`, for `0 < n`. -/
  below : G → (n : Nat) → Nat × G
  /-- Draws an order of a list. -/
  shuffle : {α : Type} → G → List α → List α × G
  /-- Draws from the interval `[0, 1)`. -/
  unit : G → Float × G
  below_lt : ∀ (rng : G) {n : Nat}, 0 < n → (below rng n).1 < n
  shuffle_perm : ∀ {α : Type} (rng : G) (xs : List α), (shuffle rng xs).1.Perm xs

namespace RandomSource

variable {G α : Type} [RandomSource G]

/-- Draws a member of a list; nothing is drawn from an empty one. -/
def choose (rng : G) (xs : List α) : Option α × G :=
  if xs.isEmpty then (none, rng)
  else
    let (i, rng) := below rng xs.length
    (xs[i]?, rng)

theorem mem_of_choose {rng : G} {xs : List α} {x : α} (h : (choose rng xs).1 = some x) :
    x ∈ xs := by
  rw [choose] at h
  split at h
  · cases h
  · exact List.mem_of_getElem? h

/-- A member is drawn by its index. -/
theorem choose_eq {rng : G} {xs : List α} {i : Nat} (hi : i < xs.length)
    (h : (below rng xs.length).1 = i) :
    choose rng xs = (some xs[i], (below rng xs.length).2) := by
  have hne : ¬ xs.isEmpty = true := fun he => by
    rw [List.isEmpty_iff.1 he] at hi
    exact Nat.not_lt_zero i hi
  rw [choose, if_neg hne]
  simp only [h, List.getElem?_eq_getElem hi]

end RandomSource

end Timetable

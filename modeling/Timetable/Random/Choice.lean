import Timetable.Random.Generator
import Timetable.Random.Source

/-!
# Random indices and orders

* `Generator.below g n` draws an index below `n`; `below_lt` says that it is one.
* `Generator.shuffle` draws an order of a list; `shuffle_perm` says that it is a reordering.

So a generator is a source of random draws.

A shuffle needs one index below each of `2, 3, …, n`.  Indices are drawn in bundles: one number
below the product `m * (m + 1) * …`, as long as the product stays below `2 ^ 32`, is taken apart
into an index for each factor.
-/

set_option autoImplicit false

namespace Timetable

universe u

namespace Generator

/-! ## One index -/

/-- Draws an index below `n`, for `0 < n < 2 ^ 32`.  The index is the whole part of `n` times a
fraction of 32 bits; where the fractional part of that product leaves the whole part in doubt, a
second draw extends the fraction. -/
def below (g : Generator) (n : Nat) : Nat × Generator :=
  let (fraction, g) := g.nextHalf
  let whole := fraction * n / wordSize 32
  let rest := fraction * n % wordSize 32
  if rest > wordSize 32 - n then
    let (more, g) := g.nextHalf
    (if rest + more * n / wordSize 32 ≥ wordSize 32 then whole + 1 else whole, g)
  else
    (whole, g)

theorem nextHalf_lt (g : Generator) : g.nextHalf.1 < wordSize 32 := by
  have h := (g.next.1).toNat_lt
  simp only [nextHalf, UInt64.toNat_shiftRight]
  rw [show (32 : UInt64).toNat % 64 = 32 from rfl, Nat.shiftRight_eq_div_pow, wordSize_eq_pow]
  exact Nat.div_lt_of_lt_mul h

/-- An index drawn below a positive `n` is below `n`. -/
theorem below_lt (g : Generator) {n : Nat} (hn : 0 < n) : (g.below n).1 < n := by
  have h₁ := nextHalf_lt g
  have h₂ := nextHalf_lt g.nextHalf.2
  have hword : wordSize 32 = 4294967296 := rfl
  simp only [below, hword] at h₁ h₂ ⊢
  generalize g.nextHalf.1 = x at h₁
  generalize g.nextHalf.2.nextHalf.1 = y at h₂
  have hx : x * n ≤ 4294967295 * n := Nat.mul_le_mul_right n (by omega)
  have hy : y * n ≤ 4294967295 * n := Nat.mul_le_mul_right n (by omega)
  have hxy := Nat.div_add_mod (x * n) 4294967296
  split
  · simp only
    split <;> omega
  · simp only
    omega

/-! ## An order of a list -/

/-- The product of as many factors `next, next + 1, …` after `product` as keep it below `2 ^ 32`,
and the first factor left out.  At most `fuel` factors are taken. -/
def bundleBound : (fuel product next : Nat) → Nat × Nat
  | 0, product, next => (product, next)
  | fuel + 1, product, next =>
    if product * next < wordSize 32 then bundleBound fuel (product * next) (next + 1)
    else (product, next)

/-- Indices that are still to be taken out of the last number drawn. -/
structure Bundle where
  /-- The number they are taken from. -/
  number : Nat
  /-- How many there are. -/
  count : Nat

/-- The index below `m` for the next place of a shuffle, and what is left of the bundle.  Below
`2 ^ 32` there is no product of more than 32 factors from 2 on. -/
def nextIndex (g : Generator) (bundle : Bundle) (m : Nat) : Nat × Bundle × Generator :=
  let (bundle, g) :=
    if bundle.count = 0 then
      let (bound, stop) := bundleBound 32 m (m + 1)
      let (number, g) := g.below bound
      ((⟨number, stop - m - 1⟩ : Bundle), g)
    else (⟨bundle.number, bundle.count - 1⟩, g)
  if bundle.count = 0 then (bundle.number, bundle, g)
  else (bundle.number % m, ⟨bundle.number / m, bundle.count⟩, g)

/-- Goes through the last `todo` places of an array from left to right and swaps each with a place
that is not to its right. -/
def shuffleFrom {α : Type u} : (todo : Nat) → Array α → Bundle → Generator → Array α × Generator
  | 0, xs, _, g => (xs, g)
  | todo + 1, xs, bundle, g =>
    let i := xs.size - (todo + 1)
    let index := g.nextIndex bundle (i + 1)
    shuffleFrom todo (xs.swapIfInBounds i index.1) index.2.1 index.2.2

/-- Draws an order of a list.  Nothing is drawn for a list with fewer than two members. -/
def shuffle {α : Type u} (g : Generator) (xs : List α) : List α × Generator :=
  if xs.length ≤ 1 then (xs, g)
  else
    let (ys, g) := shuffleFrom xs.length xs.toArray ⟨0, 1⟩ g
    (ys.toList, g)

theorem swapIfInBounds_perm {α : Type u} (xs : Array α) (i j : Nat) :
    (xs.swapIfInBounds i j).Perm xs := by
  rw [Array.swapIfInBounds_def]
  split
  · split
    · exact Array.swap_perm _ _
    · exact Array.Perm.refl xs
  · exact Array.Perm.refl xs

theorem shuffleFrom_perm {α : Type u} (todo : Nat) (xs : Array α) (bundle : Bundle)
    (g : Generator) : (shuffleFrom todo xs bundle g).1.Perm xs := by
  induction todo generalizing xs bundle g with
  | zero => exact Array.Perm.refl xs
  | succ todo ih => exact (ih _ _ _).trans (swapIfInBounds_perm xs _ _)

/-- A shuffled list is a reordering of the list. -/
theorem shuffle_perm {α : Type u} (g : Generator) (xs : List α) :
    (g.shuffle xs).1.Perm xs := by
  rw [shuffle]
  split
  · exact List.Perm.refl xs
  · exact Array.perm_iff_toList_perm.1 (shuffleFrom_perm xs.length xs.toArray ⟨0, 1⟩ g)

instance : RandomSource Generator where
  below := below
  shuffle := shuffle
  unit := nextUnit
  below_lt := below_lt
  shuffle_perm := shuffle_perm

end Generator

end Timetable

/-!
# Sets as strictly increasing lists

Answers often list a set: the periods a room is available in, the starts a candidate clashes with.
`distinct xs` is the set of the members of `xs`, written as the list that lists them once each in
increasing order, so that equal sets have one form.

* `mem_distinct`: it has the members of `xs` and no others.
* `pairwise_distinct`: it is strictly increasing.
* `distinct_eq_of_mem_iff`: equal sets have one form.

`sorted xs` keeps the repetitions; in what order the members of `xs` are given makes no difference
to it either (`sorted_eq_of_perm`).
-/

set_option autoImplicit false

namespace Timetable

universe u
variable {α : Type u} [Ord α]

/-- Adds `x` at its place in an increasing list, unless the list has it already. -/
def insertDistinct (x : α) : List α → List α
  | [] => [x]
  | y :: ys =>
    match compare x y with
    | .lt => x :: y :: ys
    | .eq => y :: ys
    | .gt => y :: insertDistinct x ys

/-- The set of the members of a list, as a strictly increasing list. -/
def distinct (xs : List α) : List α :=
  xs.foldr insertDistinct []

/-- The members of a list in increasing order, repetitions kept. -/
def sorted (xs : List α) : List α :=
  xs.mergeSort fun a b => (compare a b).isLE

theorem mem_insertDistinct [Std.LawfulEqOrd α] {x a : α} {ys : List α} :
    a ∈ insertDistinct x ys ↔ a = x ∨ a ∈ ys := by
  induction ys with
  | nil => simp [insertDistinct]
  | cons y ys ih =>
    rw [insertDistinct]
    split
    · simp
    · next h =>
      have : x = y := Std.LawfulEqCmp.eq_of_compare h
      subst this
      simp
    · simp only [List.mem_cons, ih]
      constructor <;> rintro (h | h | h) <;> simp [h]

/-- The set has the members of the list it is made of. -/
theorem mem_distinct [Std.LawfulEqOrd α] {a : α} {xs : List α} : a ∈ distinct xs ↔ a ∈ xs := by
  induction xs with
  | nil => simp [distinct]
  | cons x xs ih =>
    rw [distinct, List.foldr_cons, mem_insertDistinct, List.mem_cons]
    exact or_congr_right ih

theorem pairwise_insertDistinct [Std.TransOrd α] [Std.LawfulEqOrd α] {x : α} {ys : List α}
    (h : ys.Pairwise fun a b => compare a b = .lt) :
    (insertDistinct x ys).Pairwise fun a b => compare a b = .lt := by
  induction ys with
  | nil => simp [insertDistinct]
  | cons y ys ih =>
    have hy := List.pairwise_cons.1 h
    rw [insertDistinct]
    split
    · next hxy =>
      refine List.pairwise_cons.2 ⟨fun b hb => ?_, h⟩
      rcases List.mem_cons.1 hb with rfl | hb
      · exact hxy
      · exact Std.TransCmp.lt_trans hxy (hy.1 b hb)
    · exact h
    · next hxy =>
      refine List.pairwise_cons.2 ⟨fun b hb => ?_, ih hy.2⟩
      rcases mem_insertDistinct.1 hb with rfl | hb
      · exact Std.OrientedCmp.lt_of_gt hxy
      · exact hy.1 b hb

/-- The set lists its members in strictly increasing order. -/
theorem pairwise_distinct [Std.TransOrd α] [Std.LawfulEqOrd α] (xs : List α) :
    (distinct xs).Pairwise fun a b => compare a b = .lt := by
  induction xs with
  | nil => exact List.Pairwise.nil
  | cons x xs ih => exact pairwise_insertDistinct ih

/-- The set lists every member once. -/
theorem nodup_distinct [Std.TransOrd α] [Std.LawfulEqOrd α] (xs : List α) : (distinct xs).Nodup := by
  refine (pairwise_distinct xs).imp fun {a b} hab heq => ?_
  rw [heq] at hab
  simp at hab

/-- Equal sets have one form. -/
theorem distinct_eq_of_mem_iff [Std.TransOrd α] [Std.LawfulEqOrd α] {xs ys : List α}
    (h : ∀ a, a ∈ xs ↔ a ∈ ys) : distinct xs = distinct ys := by
  have hperm : (distinct xs).Perm (distinct ys) :=
    (List.perm_ext_iff_of_nodup (nodup_distinct xs) (nodup_distinct ys)).2 fun a => by
      rw [mem_distinct, mem_distinct, h]
  refine List.Perm.eq_of_pairwise (fun a b _ _ hab hba => ?_) (pairwise_distinct xs)
    (pairwise_distinct ys) hperm
  rw [Std.OrientedCmp.gt_of_lt hab] at hba
  cases hba

theorem sorted_perm (xs : List α) : (sorted xs).Perm xs := List.mergeSort_perm _ _

theorem pairwise_sorted [Std.TransOrd α] (xs : List α) :
    (sorted xs).Pairwise fun a b => (compare a b).isLE := by
  refine List.pairwise_mergeSort (fun a b c => Std.TransCmp.isLE_trans) (fun a b => ?_) xs
  cases hab : compare a b with
  | lt => rfl
  | eq => rfl
  | gt => rw [Std.OrientedCmp.lt_of_gt hab]; rfl

/-- The members of a list have one increasing order. -/
theorem sorted_eq_of_perm [Std.TransOrd α] [Std.LawfulEqOrd α] {xs ys : List α} (h : xs.Perm ys) :
    sorted xs = sorted ys := by
  refine List.Perm.eq_of_pairwise (fun a b _ _ hab hba => ?_) (pairwise_sorted xs)
    (pairwise_sorted ys) ((sorted_perm xs).trans (h.trans (sorted_perm ys).symm))
  exact Std.LawfulEqCmp.eq_of_compare (Std.OrientedCmp.isLE_antisymm hab hba)

end Timetable

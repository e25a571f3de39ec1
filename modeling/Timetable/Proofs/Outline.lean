import Mathlib.Data.List.Basic

/-!
# Findings and their places

A finding is something found in a document, together with its place.  A place is a list of numbers,
like that of a paragraph in a book: the numbers of the chapter, the section and so on.  The
lexicographic order of places is the order in which one comes upon the findings when reading.

* `outline` puts lists of findings one after the other and numbers them; `findingIf` is a single
  finding, or none.
* What holds of every finding can be told from the lists an outline is made of: `forall_mem_outline`
  and its like.
* `inOrder_outline`: an outline of lists in order is in order.
* `head?_map_snd_eq_some_iff`: in a list in order the first finding is the one with none at an
  earlier place.
-/

set_option autoImplicit false

namespace Timetable

variable {α β : Type}

/-- The findings of several lists, one list after the other.  The place of each of them begins with
the number of its list. -/
def outline : (first : Nat) → List (List (List Nat × β)) → List (List Nat × β)
  | _, [] => []
  | k, l :: ls => l.map (fun e => (k :: e.1, e.2)) ++ outline (k + 1) ls

/-- A finding if there is one, at the place that is looked at. -/
def findingIf (p : Prop) [Decidable p] (b : β) : List (List Nat × β) := if p then [([], b)] else []

/-- The places of findings come in their order. -/
def InOrder (l : List (List Nat × β)) : Prop := l.Pairwise fun a b => a.1 < b.1

variable {k : Nat} {l : List (List Nat × β)} {ls : List (List (List Nat × β))} {b : β}

/-! ## What is found -/

section Forall

variable {P : List Nat × β → Prop}

theorem forall_mem_findingIf {p : Prop} [Decidable p] :
    (∀ e ∈ findingIf p b, P e) ↔ (p → P ([], b)) := by
  rw [findingIf]
  split
  · next hp => simp [hp]
  · next hp => simp [hp]

theorem forall_mem_outline_nil : (∀ e ∈ outline k [], P e) ↔ True := by simp [outline]

theorem forall_mem_outline_cons : (∀ e ∈ outline k (l :: ls), P e) ↔
    (∀ e ∈ l, P (k :: e.1, e.2)) ∧ ∀ e ∈ outline (k + 1) ls, P e := by
  rw [outline, List.forall_mem_append, List.forall_mem_map]

theorem forall_mem_outline : (∀ e ∈ outline k ls, P e) ↔
    ∀ i l, ls[i]? = some l → ∀ e ∈ l, P ((k + i) :: e.1, e.2) := by
  induction ls generalizing k with
  | nil => simp [outline]
  | cons m ls ih =>
    rw [forall_mem_outline_cons, ih]
    constructor
    · rintro ⟨hm, hls⟩ (_ | i) l hi
      · cases hi
        exact hm
      · rw [← Nat.succ_add_eq_add_succ]
        exact hls i l hi
    · intro h
      refine ⟨h 0 m rfl, fun i l hi => ?_⟩
      rw [Nat.succ_add_eq_add_succ]
      exact h (i + 1) l hi

/-- What holds of all findings in the entries of a list. -/
theorem forall_mem_outline_map {f : α → List (List Nat × β)} {xs : List α} :
    (∀ e ∈ outline 0 (xs.map f), P e) ↔
      ∀ i x, xs[i]? = some x → ∀ e ∈ f x, P (i :: e.1, e.2) := by
  simp only [forall_mem_outline, List.getElem?_map, Option.map_eq_some_iff, Nat.zero_add]
  exact forall_congr' fun i => ⟨fun h x hx => h _ ⟨x, hx, rfl⟩, fun h l ⟨x, hx, hl⟩ => hl ▸ h x hx⟩

end Forall

theorem mem_findingIf {p : Prop} {_ : Decidable p} (hp : p) : ([], b) ∈ findingIf p b := by
  rw [findingIf, if_pos hp]
  exact List.mem_singleton_self _

theorem mem_outline (i : Nat) (hi : ls[i]? = some l) {place : List Nat} (hb : (place, b) ∈ l) :
    ((k + i) :: place, b) ∈ outline k ls :=
  forall_mem_outline.1 (fun _ he => he) i l hi _ hb

theorem mem_outline_map {f : α → List (List Nat × β)} {xs : List α} {i : Nat} {x : α}
    (hi : xs[i]? = some x) {place : List Nat} (hb : (place, b) ∈ f x) :
    (i :: place, b) ∈ outline 0 (xs.map f) :=
  forall_mem_outline_map.1 (fun _ he => he) i x hi _ hb

/-! ## In which order -/

theorem map_snd_outline : (outline k ls).map (·.2) = ls.flatMap (·.map (·.2)) := by
  induction ls generalizing k with
  | nil => rfl
  | cons l ls ih =>
    rw [outline, List.map_append, ih, List.map_map, List.flatMap_cons]
    rfl

theorem map_snd_findingIf {p : Prop} [Decidable p] :
    (findingIf p b).map (·.2) = if p then [b] else [] := by
  rw [findingIf]
  split <;> rfl

theorem inOrder_findingIf {p : Prop} [Decidable p] : InOrder (findingIf p b) := by
  rw [findingIf]
  split
  · exact List.pairwise_singleton _ _
  · exact List.Pairwise.nil

/-- An outline is in order if its lists are. -/
theorem inOrder_outline : InOrder (outline k ls) ↔ ∀ l ∈ ls, InOrder l := by
  induction ls generalizing k with
  | nil => simp [outline, InOrder]
  | cons l ls ih =>
    have hlater : ∀ b ∈ outline (k + 1) ls, ∀ place, k :: place < b.1 :=
      forall_mem_outline.2 fun i m _ e _ place => List.cons_lt_cons_iff.2 (.inl (by omega))
    have hcross : ∀ a ∈ l.map (fun e => (k :: e.1, e.2)), ∀ b ∈ outline (k + 1) ls, a.1 < b.1 :=
      List.forall_mem_map.2 fun e _ b hb => hlater b hb e.1
    rw [List.forall_mem_cons, ← @ih (k + 1), InOrder, outline, List.pairwise_append,
      List.pairwise_map, and_iff_left hcross]
    simp only [List.cons_lt_cons_self, InOrder]

/-- The first of the findings is the one with none at an earlier place. -/
theorem head?_map_snd_eq_some_iff (h : InOrder l) :
    (l.map (·.2)).head? = some b ↔ ∃ place, (place, b) ∈ l ∧ ∀ e ∈ l, ¬ e.1 < place := by
  cases l with
  | nil => simp
  | cons e l =>
    obtain ⟨he, -⟩ := List.pairwise_cons.1 h
    rw [List.map_cons, List.head?_cons]
    constructor
    · rintro ⟨⟩
      refine ⟨e.1, List.mem_cons_self, fun e' he' hlt => ?_⟩
      rcases List.mem_cons.1 he' with rfl | he'
      · exact List.lt_irrefl e'.1 hlt
      · exact List.lt_asymm hlt (he e' he')
    · rintro ⟨place, hmem, hfirst⟩
      rcases List.mem_cons.1 hmem with rfl | hmem
      · rfl
      · exact absurd (he _ hmem) (hfirst e List.mem_cons_self)

end Timetable

import Mathlib.Data.List.Basic

/-!
# Computations that may fail

A computation that may fail is a value of `Except`.  What one that is put together of others comes
to is read off its parts by `bind_eq_ok_iff` and `map_eq_ok_iff`.  A property of the value it comes
to, if it does, and one of the error otherwise (`Meets`) are carried along in the same way.

If a computation succeeds for every member of a list, then doing it for the whole list succeeds, and
gives what the list is mapped to, filtered by, and so on: `mapM_eq_ok` and its like.
-/

set_option autoImplicit false

namespace Timetable

variable {ε ε' α β : Type}

@[simp] theorem ok_bind (a : α) (f : α → Except ε β) : (Except.ok a >>= f) = f a := rfl

@[simp] theorem mapError_ok (h : ε → ε') (a : α) : (Except.ok a).mapError h = .ok a := rfl

theorem bind_eq_ok_iff {x : Except ε α} {f : α → Except ε β} {b : β} :
    (x >>= f) = .ok b ↔ ∃ a, x = .ok a ∧ f a = .ok b := by
  cases x with
  | error e =>
    constructor
    · intro h
      cases h
    · rintro ⟨a, ha, -⟩
      cases ha
  | ok a =>
    constructor
    · intro h
      exact ⟨a, rfl, h⟩
    · rintro ⟨_, ha, h⟩
      cases ha
      exact h

theorem map_eq_ok_iff {x : Except ε α} {f : α → β} {b : β} :
    x.map f = .ok b ↔ ∃ a, x = .ok a ∧ f a = b := by
  cases x with
  | error e => simp [Except.map]
  | ok a => simp [Except.map]

/-- Errors are renamed in each of two computations that follow one another. -/
theorem mapError_bind (h : ε → ε') (x : Except ε α) (f : α → Except ε β) :
    (x >>= f).mapError h = x.mapError h >>= fun a => (f a).mapError h := by
  cases x with
  | error e => rfl
  | ok a => rfl

/-! ## What a computation comes to -/

/-- A computation comes to a value with the property `P`, or it fails with an error with the property
`E`. -/
def Meets (P : α → Prop) (E : ε → Prop) : Except ε α → Prop
  | .ok a => P a
  | .error e => E e

namespace Meets

variable {P : α → Prop} {Q : β → Prop} {E : ε → Prop} {x : Except ε α}

theorem of_eq_ok (h : Meets P E x) {a : α} (ha : x = .ok a) : P a := by
  rw [ha] at h
  exact h

theorem of_eq_error (h : Meets P E x) {e : ε} (he : x = .error e) : E e := by
  rw [he] at h
  exact h

theorem exists_or (h : Meets P E x) : (∃ a, x = .ok a ∧ P a) ∨ ∃ e, x = .error e ∧ E e := by
  cases x with
  | error e => exact .inr ⟨e, rfl, h⟩
  | ok a => exact .inl ⟨a, rfl, h⟩

theorem imp {Q : α → Prop} (h : Meets P E x) (hPQ : ∀ a, P a → Q a) : Meets Q E x := by
  cases x with
  | error e => exact h
  | ok a => exact hPQ a h

theorem imp_error {F : ε → Prop} (h : Meets P E x) (hEF : ∀ e, E e → F e) : Meets P F x := by
  cases x with
  | error e => exact hEF e h
  | ok a => exact h

theorem bind (h : Meets P E x) {f : α → Except ε β} (hf : ∀ a, P a → Meets Q E (f a)) :
    Meets Q E (x >>= f) := by
  cases x with
  | error e => exact h
  | ok a => exact hf a h

theorem map (h : Meets P E x) {f : α → β} (hf : ∀ a, P a → Q (f a)) : Meets Q E (x.map f) := by
  cases x with
  | error e => exact h
  | ok a => exact hf a h

end Meets

/-! ## Lists -/

/-- What a list is mapped to comes from its members. -/
theorem exists_of_mem_mapM {f : α → Except ε β} {l : List α} {m : List β} (h : l.mapM f = .ok m)
    {y : β} (hy : y ∈ m) : ∃ x ∈ l, f x = .ok y := by
  induction l generalizing m with
  | nil =>
    rw [List.mapM_nil] at h
    cases h
    exact absurd hy List.not_mem_nil
  | cons x l ih =>
    rw [List.mapM_cons] at h
    obtain ⟨z, hz, h⟩ := bind_eq_ok_iff.1 h
    obtain ⟨m', hm, h⟩ := bind_eq_ok_iff.1 h
    cases h
    rcases List.mem_cons.1 hy with rfl | hy
    · exact ⟨x, List.mem_cons_self, hz⟩
    · obtain ⟨w, hw, hwy⟩ := ih hm hy
      exact ⟨w, List.mem_cons_of_mem x hw, hwy⟩

/-- If a list is mapped, so is every member. -/
theorem exists_of_mapM_eq_ok {f : α → Except ε β} {l : List α} {m : List β} (h : l.mapM f = .ok m)
    {x : α} (hx : x ∈ l) : ∃ y, f x = .ok y := by
  induction l generalizing m with
  | nil => exact absurd hx List.not_mem_nil
  | cons w l ih =>
    rw [List.mapM_cons] at h
    obtain ⟨z, hz, h⟩ := bind_eq_ok_iff.1 h
    obtain ⟨m', hm, -⟩ := bind_eq_ok_iff.1 h
    rcases List.mem_cons.1 hx with rfl | hx
    · exact ⟨z, hz⟩
    · exact ih hm hx

theorem mapM_eq_ok {f : α → Except ε β} {g : α → β} {l : List α} (h : ∀ x ∈ l, f x = .ok (g x)) :
    l.mapM f = .ok (l.map g) := by
  induction l with
  | nil => rfl
  | cons x l ih =>
    rw [List.mapM_cons, h x List.mem_cons_self, ih fun y hy => h y (List.mem_cons_of_mem x hy)]
    rfl

/-- If all members are mapped, what they are mapped to is what the list is mapped to. -/
theorem mapM_eq_ok_filterMap {f : α → Except ε β} {l : List α} (h : ∀ x ∈ l, ∃ y, f x = .ok y) :
    l.mapM f = .ok (l.filterMap fun x => (f x).toOption) := by
  induction l with
  | nil => rfl
  | cons x l ih =>
    obtain ⟨y, hy⟩ := h x List.mem_cons_self
    rw [List.mapM_cons, List.filterMap_cons, hy, ih fun w hw => h w (List.mem_cons_of_mem x hw)]
    rfl

theorem flatMapM_eq_ok {f : α → Except ε (List β)} {g : α → List β} {l : List α}
    (h : ∀ x ∈ l, f x = .ok (g x)) : l.flatMapM f = .ok (l.flatMap g) := by
  suffices hloop : ∀ done, List.flatMapM.loop f l done = .ok (done.reverse.flatten ++ l.flatMap g) from
    hloop []
  induction l with
  | nil =>
    intro done
    rw [List.flatMap_nil, List.append_nil]
    rfl
  | cons x l ih =>
    intro done
    rw [List.flatMapM.loop, h x List.mem_cons_self, ok_bind,
      ih (fun y hy => h y (List.mem_cons_of_mem x hy)), List.reverse_cons, List.flatten_append,
      List.flatten_singleton, List.append_assoc, List.flatMap_cons]

theorem filterM_eq_ok {f : α → Except ε Bool} {g : α → Bool} {l : List α}
    (h : ∀ x ∈ l, f x = .ok (g x)) : l.filterM f = .ok (l.filter g) := by
  suffices hloop : ∀ done, List.filterAuxM f l done = .ok ((l.filter g).reverse ++ done) by
    rw [List.filterM, hloop, ok_bind, List.append_nil, List.reverse_reverse]
    rfl
  induction l with
  | nil => exact fun done => rfl
  | cons x l ih =>
    intro done
    rw [List.filterAuxM, h x List.mem_cons_self, ok_bind,
      ih fun y hy => h y (List.mem_cons_of_mem x hy)]
    cases hx : g x with
    | false => rw [List.filter_cons_of_neg (by simp [hx]), cond_false]
    | true =>
      rw [List.filter_cons_of_pos hx, cond_true, List.reverse_cons, List.append_assoc]
      rfl

theorem filterMapM_eq_ok {f : α → Except ε (Option β)} {g : α → Option β} {l : List α}
    (h : ∀ x ∈ l, f x = .ok (g x)) : l.filterMapM f = .ok (l.filterMap g) := by
  suffices hloop : ∀ done, List.filterMapM.loop f l done =
      .ok (done.reverse ++ l.filterMap g) from hloop []
  induction l with
  | nil =>
    intro done
    rw [List.filterMap_nil, List.append_nil]
    rfl
  | cons x l ih =>
    intro done
    rw [List.filterMapM.loop, h x List.mem_cons_self, ok_bind]
    cases hx : g x with
    | none =>
      rw [List.filterMap_cons_none hx]
      exact ih (fun y hy => h y (List.mem_cons_of_mem x hy)) done
    | some y =>
      rw [List.filterMap_cons_some hx]
      refine (ih (fun y hy => h y (List.mem_cons_of_mem x hy)) (y :: done)).trans ?_
      rw [List.reverse_cons, List.append_assoc, List.singleton_append]

theorem anyM_eq_ok {f : α → Except ε Bool} {g : α → Bool} {l : List α}
    (h : ∀ x ∈ l, f x = .ok (g x)) : l.anyM f = .ok (l.any g) := by
  induction l with
  | nil => rfl
  | cons x l ih =>
    rw [List.anyM_cons, h x List.mem_cons_self, ok_bind, List.any_cons,
      ih fun y hy => h y (List.mem_cons_of_mem x hy)]
    cases g x <;> rfl

end Timetable

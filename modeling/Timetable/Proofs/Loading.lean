import Timetable.Proofs.Freeing
import Timetable.Proofs.Replay

/-!
# Loading

To load a list of triples is to place the starts they stand for one after the other.  The order of
the list plays no part in this, the starts are put into the placement order first: those that are
locked before the others, either in the order of time.  What stands in the way of a start depends on
what has been placed before it, so leaving out a start could have any effect on what comes later.

* `Rulebook.exists_placeAll_placeSome`: it has none if the start could not be placed.  Placing what
  was kept, and nothing else, leads to the same schedule.
* `Rulebook.placeSome_placementOrder_congr`: and neither has placing a start again.
* `Rulebook.load_is_determined`: so lenient loading depends on the set of triples only, and what it
  gives can be written out and loaded again.
* `Rulebook.loadLenient_is_maximal`: nothing that was left out could be added in the end, unless
  the rulebook minds prerequisites, as rules get no more permissive when more is placed.
-/

set_option autoImplicit false

namespace Timetable

variable {p : Program} {book : Rulebook} {s t : Schedule p} {c : Start}

/-! ## What triples stand for -/

/-- The starts that triples stand for, marked as the triples are.  A triple that stands for no start
is left out. -/
def Triple.markedStarts (p : Program) (triples : List Triple) : List (Bool × Start) :=
  triples.filterMap fun x => ((x.resolve p).map fun c => (x.locked, c)).toOption

theorem Triple.mem_markedStarts_iff {triples : List Triple} {marked : Bool} :
    (marked, c) ∈ markedStarts p triples ↔
      ∃ x ∈ triples, x.resolve p = .ok c ∧ x.locked = marked := by
  rw [markedStarts, List.mem_filterMap]
  refine exists_congr fun x => and_congr_right fun _ => ?_
  cases x.resolve p with
  | error e => simp [Except.map, Except.toOption]
  | ok a => simp [Except.map, Except.toOption, and_comm]

theorem Triple.isOf_of_mem_markedStarts {triples : List Triple} {e : Bool × Start}
    (he : e ∈ markedStarts p triples) : e.2.IsOf p := by
  obtain ⟨x, -, hx, -⟩ := mem_markedStarts_iff.1 he
  exact (Start.isOf_of_make hx).1

theorem Triple.markedStarts_perm {l m : List Triple} (h : l.Perm m) :
    (markedStarts p l).Perm (markedStarts p m) := h.filterMap _

theorem Triple.mem_markedStarts_congr {l m : List Triple} (h : ∀ x, x ∈ l ↔ x ∈ m)
    (e : Bool × Start) : e ∈ markedStarts p l ↔ e ∈ markedStarts p m := by
  simp only [markedStarts, List.mem_filterMap, h]

/-- Nothing has grown too large for a triple that stands for a start. -/
theorem Triple.resolve_ne_fault {x : Triple} (h : ∃ c, x.resolve p = .ok c) (f : Fault) :
    x.resolve p ≠ .error (.fault f) := by
  obtain ⟨c, hc⟩ := h
  rw [hc]
  exact nofun

theorem PlacementError.toOption_eq_ok {α : Type} {x : Except PlacementError α}
    (h : ∀ f, x ≠ .error (.fault f)) : toOption x = .ok x.toOption := by
  rw [toOption.eq_def]
  split
  · rfl
  · next f => exact absurd rfl (h f)
  · rfl

namespace Rulebook

/-! ## The placement order -/

/-- The placement order does not depend on the order in which the starts are given. -/
theorem placementOrder_eq_of_perm {l m : List (Bool × Start)} (h : l.Perm m) :
    book.placementOrder l = book.placementOrder m := by
  rw [placementOrder_eq_append, placementOrder_eq_append, sorted_eq_of_perm ((h.filter _).map _),
    sorted_eq_of_perm ((h.filter _).map _)]

/-- The order in which starts are placed if the pinned ones are marked and no others. -/
def PlacesBefore (book : Rulebook) (a b : Start) : Prop :=
  book.pins.holds a = true ∧ book.pins.holds b = false ∨
    book.pins.holds a = book.pins.holds b ∧ (compare a b).isLE

theorem PlacesBefore.antisymm {a b : Start} (hab : book.PlacesBefore a b)
    (hba : book.PlacesBefore b a) : a = b := by
  rcases hab with ⟨ha, hb⟩ | ⟨he, hab⟩ <;> rcases hba with ⟨hb', ha'⟩ | ⟨he', hba⟩
  · rw [ha] at ha'
    cases ha'
  · rw [ha, hb] at he'
    cases he'
  · rw [ha', hb'] at he
    cases he
  · exact Std.LawfulEqCmp.eq_of_compare (Std.OrientedCmp.isLE_antisymm hab hba)

/-- If the pinned starts are marked and no others, the starts alone decide on the order. -/
theorem pairwise_placementOrder {starts : List (Bool × Start)}
    (h : ∀ e ∈ starts, e.1 = book.pins.holds e.2) :
    (book.placementOrder starts).Pairwise book.PlacesBefore := by
  have hmark : ∀ (P : Bool × Start → Bool) (a : Start),
      a ∈ sorted ((starts.filter P).map (·.2)) → P (book.pins.holds a, a) = true := by
    intro P a ha
    obtain ⟨⟨marked, a⟩, he, rfl⟩ := List.mem_map.1 ((sorted_perm _).mem_iff.1 ha)
    obtain ⟨he, hP⟩ := List.mem_filter.1 he
    have hmarked : marked = book.pins.holds a := h _ he
    rwa [hmarked] at hP
  have hlocked : ∀ a ∈ sorted ((starts.filter book.isLocked).map (·.2)),
      book.pins.holds a = true := fun a ha => by simpa [isLocked] using hmark _ a ha
  have hfree : ∀ a ∈ sorted ((starts.filter (!book.isLocked ·)).map (·.2)),
      book.pins.holds a = false := fun a ha => by simpa [isLocked] using hmark _ a ha
  rw [placementOrder_eq_append]
  refine List.pairwise_append.2 ⟨(pairwise_sorted _).imp_of_mem fun ha hb hab => ?_,
    (pairwise_sorted _).imp_of_mem fun ha hb hab => ?_, fun a ha b hb => ?_⟩
  · exact .inr ⟨(hlocked _ ha).trans (hlocked _ hb).symm, hab⟩
  · exact .inr ⟨(hfree _ ha).trans (hfree _ hb).symm, hab⟩
  · exact .inl ⟨hlocked a ha, hfree b hb⟩

/-! ## Placing one start after the other -/

section Placing

variable (hdup : .duplicateSections ∈ book.rules)

theorem placeSome_append (s : Schedule p) (l m : List Start) :
    book.placeSome s (l ++ m) = book.placeSome (book.placeSome s l) m := List.foldl_append

/-- Placing goes on where it has come to. -/
theorem placeAll_append {l : List Start} (h : book.placeAll s l = .ok t) (m : List Start) :
    book.placeAll s (l ++ m) = book.placeAll t m := by
  induction l generalizing s with
  | nil =>
    cases h
    rfl
  | cons c l ih =>
    by_cases hv : (book.validate s c).isValid
    · rw [placeAll_cons_of_isValid hv] at h
      rw [List.cons_append, placeAll_cons_of_isValid hv, ih h]
    · rw [placeAll_cons_of_not_isValid hv] at h
      cases h

/-- **What cannot be placed may as well be left out from the start.** -/
theorem exists_placeAll_placeSome (s : Schedule p) (l : List Start) :
    ∃ kept, kept.Sublist l ∧ book.placeAll s kept = .ok (book.placeSome s l) := by
  induction l generalizing s with
  | nil => exact ⟨[], List.Sublist.refl _, rfl⟩
  | cons c l ih =>
    by_cases hv : (book.validate s c).isValid
    · obtain ⟨kept, hsub, hkept⟩ := ih (s.add c)
      refine ⟨c :: kept, hsub.cons_cons c, ?_⟩
      rw [placeAll_cons_of_isValid hv, hkept, placeSome_cons_of_isValid hv]
    · obtain ⟨kept, hsub, hkept⟩ := ih s
      exact ⟨kept, hsub.cons c, by rw [hkept, placeSome_cons_of_not_isValid hv]⟩

/-- Placing starts stops at one of them: those before it are placed, and it cannot be. -/
def StopsAt (book : Rulebook) (s : Schedule p) (before : List Start) (c : Start)
    (e : PlacementError) : Prop :=
  ∃ t, book.placeAll s before = .ok t ∧ ¬ (book.validate t c).isValid ∧
    e = .conflict c.sectionId c.periodId (book.validate t c).text

/-- **The only thing that can go wrong is that a start is in conflict with those before it.** -/
theorem placeAll_eq_error_iff {l : List Start} {e : PlacementError} :
    book.placeAll s l = .error e ↔
      ∃ before c after, l = before ++ c :: after ∧ book.StopsAt s before c e := by
  induction l generalizing s with
  | nil =>
    constructor
    · intro h
      cases h
    · rintro ⟨before, c, after, hl, -⟩
      simp at hl
  | cons b l ih =>
    by_cases hv : (book.validate s b).isValid
    · rw [placeAll_cons_of_isValid hv, ih]
      constructor
      · rintro ⟨before, c, after, rfl, t, ht, hstop⟩
        exact ⟨b :: before, c, after, rfl, t, (placeAll_cons_of_isValid hv).trans ht, hstop⟩
      · rintro ⟨before, c, after, hl, t, ht, hstop⟩
        rcases List.cons_eq_append_iff.1 hl with ⟨rfl, he⟩ | ⟨before, rfl, rfl⟩
        · cases he
          cases ht
          exact absurd hv hstop.1
        · rw [placeAll_cons_of_isValid hv] at ht
          exact ⟨before, c, after, rfl, t, ht, hstop⟩
    · rw [placeAll_cons_of_not_isValid hv]
      constructor
      · intro h
        exact ⟨[], b, l, rfl, s, rfl, hv, (Except.error.inj h).symm⟩
      · rintro ⟨before, c, after, hl, t, ht, -, rfl⟩
        rcases List.cons_eq_append_iff.1 hl with ⟨rfl, he⟩ | ⟨before, rfl, rfl⟩
        · cases he
          cases ht
          rfl
        · rw [placeAll_cons_of_not_isValid hv] at ht
          cases ht

/-- Both indexes stay in order, whichever rules there are. -/
theorem keptByEdits_isOrdered : KeptByEdits (fun _ => True) (Schedule.IsOrdered (p := p)) where
  add _ hs := hs.add _
  remove hs := hs.remove _

theorem isOrdered_assign (book : Rulebook) (hs : s.IsOrdered) (c : Start) :
    (book.assign s c).2.IsOrdered := keptByEdits_isOrdered.assign book trivial hs

theorem isOrdered_placeSome (book : Rulebook) (hs : s.IsOrdered) (l : List Start) :
    (book.placeSome s l).IsOrdered :=
  keptByEdits_isOrdered.placeSome book (fun _ _ => trivial) hs

include hdup

/-- Placing a start twice is placing it once: either it is placed then or it still cannot be. -/
theorem assign_assign (hs : s.IsOrdered) (c : Start) :
    (book.assign (book.assign s c).2 c).2 = (book.assign s c).2 := by
  rcases book.assign_cases s c with he | ⟨-, he⟩
  · rw [he, he]
  · rw [he]
    refine assign_of_not_isValid fun hv => ?_
    have hnone := startOf?_eq_none_of_isValid hdup hv
    rw [hs.startOf?_add, if_pos rfl] at hnone
    cases hnone

/-- **Of starts in order repetitions do not matter.** -/
theorem placeSome_distinct (hs : s.IsOrdered) {l : List Start}
    (hl : l.Pairwise fun a b => (compare a b).isLE) :
    book.placeSome s (distinct l) = book.placeSome s l := by
  induction l generalizing s with
  | nil => rfl
  | cons c l ih =>
    obtain ⟨hc, hl⟩ := List.pairwise_cons.1 hl
    have hrest := ih (isOrdered_assign book hs c) hl
    change book.placeSome s (insertDistinct c (distinct l)) = book.placeSome (book.assign s c).2 l
    rw [← hrest]
    cases hd : distinct l with
    | nil => rfl
    | cons b m =>
      -- the first of the others is not before `c`, so it comes later or is `c` again
      have hle := hc b (mem_distinct.1 (hd ▸ List.mem_cons_self))
      rw [insertDistinct]
      split
      · rfl
      · next heq =>
        cases Std.LawfulEqCmp.eq_of_compare heq
        change book.placeSome (book.assign s c).2 m =
          book.placeSome (book.assign (book.assign s c).2 c).2 m
        rw [assign_assign hdup hs]
      · next hgt =>
        rw [hgt] at hle
        cases hle

theorem placeSome_sorted (hs : s.IsOrdered) (l : List Start) :
    book.placeSome s (sorted l) = book.placeSome s (distinct l) := by
  have hset : distinct (sorted l) = distinct l :=
    distinct_eq_of_mem_iff fun a => (sorted_perm l).mem_iff
  rw [← placeSome_distinct hdup hs (pairwise_sorted l), hset]

/-- **What is placed depends on the set of the starts only.** -/
theorem placeSome_placementOrder_congr (hs : s.IsOrdered) {l m : List (Bool × Start)}
    (h : ∀ e, e ∈ l ↔ e ∈ m) :
    book.placeSome s (book.placementOrder l) = book.placeSome s (book.placementOrder m) := by
  have hset : ∀ P : Bool × Start → Bool,
      distinct ((l.filter P).map (·.2)) = distinct ((m.filter P).map (·.2)) := fun P =>
    distinct_eq_of_mem_iff fun a => by simp only [List.mem_map, List.mem_filter, h]
  have hordered := fun l => isOrdered_placeSome book hs (distinct l)
  rw [placementOrder_eq_append, placementOrder_eq_append, placeSome_append, placeSome_append,
    placeSome_sorted hdup hs, placeSome_sorted hdup hs, placeSome_sorted hdup (hordered _),
    placeSome_sorted hdup (hordered _), hset, hset]

end Placing

section Coherence

variable (hdup : .duplicateSections ∈ book.rules) (hroom : .roomConflict ∈ book.rules)

include hdup hroom

/-- **What is placed then are the starts that were placed before and the new ones.** -/
theorem starts_placeAll (hs : s.Coherent) {l : List Start} (hl : ∀ c ∈ l, c.IsOf p)
    (h : book.placeAll s l = .ok t) : t.starts.Perm (l ++ s.starts) := by
  induction l generalizing s with
  | nil =>
    cases h
    exact List.Perm.refl _
  | cons c l ih =>
    have hc := hl c List.mem_cons_self
    by_cases hv : (book.validate s c).isValid
    · rw [placeAll_cons_of_isValid hv] at h
      have hperm := ih (coherent_add hs hdup hroom hc hv)
        (fun b hb => hl b (List.mem_cons_of_mem c hb)) h
      exact (hperm.trans ((starts_add hs hdup hroom hc hv).append_left l)).trans List.perm_middle
    · rw [placeAll_cons_of_not_isValid hv] at h
      cases h

theorem starts_placeAll_empty {l : List Start} (hl : ∀ c ∈ l, c.IsOf p)
    (h : book.placeAll (.empty p) l = .ok t) : t.starts.Perm l := by
  have hperm := starts_placeAll hdup hroom .empty hl h
  rwa [show (Schedule.empty p).starts = [] from rfl, List.append_nil] at hperm

theorem coherent_placeSome (hs : s.Coherent) {l : List Start} (hl : ∀ c ∈ l, c.IsOf p) :
    (book.placeSome s l).Coherent := (Edits.refl.placeSome hl).coherent hdup hroom hs

/-- What is placed stays placed. -/
theorem isPartOf_placeSome (hs : s.Coherent) {l : List Start} (hl : ∀ c ∈ l, c.IsOf p) :
    s.IsPartOf (book.placeSome s l) := by
  induction l generalizing s with
  | nil => exact fun a ha => ha
  | cons c l ih =>
    have hassign := (Edits.refl.assign (hl c List.mem_cons_self)).coherent hdup hroom hs
    exact Schedule.IsPartOf.trans (fun a ha => holds_assign hs hdup ha)
      (ih hassign fun b hb => hl b (List.mem_cons_of_mem c hb))

/-- **What was kept can be written out and loaded**, if the starts were in the placement order. -/
theorem load_triples_placeSome {l : List Start} (hl : ∀ c ∈ l, c.IsOf p)
    (horder : l.Pairwise book.PlacesBefore) :
    book.load p (book.triples (book.placeSome (.empty p) l)) =
      .ok (book.placeSome (.empty p) l) := by
  obtain ⟨kept, hsub, hkept⟩ := book.exists_placeAll_placeSome (.empty p) l
  have hs := coherent_placeSome hdup hroom .empty hl
  have hstarts := starts_placeAll_empty hdup hroom (fun c hc => hl c (hsub.subset hc)) hkept
  -- the starts that were kept are in the one order in which they are placed again
  have heq : book.placementOrder ((book.placeSome (.empty p) l).starts.map fun c =>
      (book.pins.holds c, c)) = kept := by
    refine List.Perm.eq_of_pairwise (fun a b _ _ => PlacesBefore.antisymm)
      (pairwise_placementOrder fun e he => ?_) (horder.sublist hsub) ?_
    · obtain ⟨c, -, rfl⟩ := List.mem_map.1 he
      rfl
    · refine (placementOrder_perm _ _).trans ?_
      rw [List.map_map]
      exact (List.map_id _).symm ▸ hstarts
  rw [load_triples_eq hs, heq, hkept]

/-- **What is not placed could not be placed in the end either.** -/
theorem holds_or_not_isValid_placeSome (hbook : book.IsBuiltIn) (hpre : .prerequisites ∉ book.rules)
    (hs : s.Coherent) {l : List Start} (hl : ∀ c ∈ l, c.IsOf p) (hc : c ∈ l) :
    (book.placeSome s l).Holds c ∨ ¬ (book.validate (book.placeSome s l) c).isValid := by
  induction l generalizing s with
  | nil => exact absurd hc List.not_mem_nil
  | cons b l ih =>
    have hb := hl b List.mem_cons_self
    have hrest : ∀ a ∈ l, a.IsOf p := fun a ha => hl a (List.mem_cons_of_mem b ha)
    rcases List.mem_cons.1 hc with rfl | hc
    · by_cases hv : (book.validate s c).isValid
      · refine .inl ?_
        rw [placeSome_cons_of_isValid hv]
        refine isPartOf_placeSome hdup hroom (coherent_add hs hdup hroom hb hv) hrest c ?_
        exact (holds_add_of_isValid hs hdup hv).2 (.inl rfl)
      · -- what was in the way has not gone since
        refine .inr fun hv' => hv ?_
        exact isValid_of_isPartOf hbook hdup hpre (coherent_placeSome hdup hroom hs hl) hs hb
          (isPartOf_placeSome hdup hroom hs hl) hv'
    · exact ih ((Edits.refl.assign hb).coherent hdup hroom hs) hrest hc

end Coherence

/-! ## Loading triples -/

section Loading

variable {triples : List Triple}

theorem load_eq (h : ∀ x ∈ triples, ∃ c, x.resolve p = .ok c) : book.load p triples =
    book.placeAll (.empty p) (book.placementOrder (Triple.markedStarts p triples)) := by
  rw [load, mapM_eq_ok_filterMap fun x hx => ?_]
  · rfl
  · obtain ⟨c, hc⟩ := h x hx
    exact ⟨_, congrArg (Except.map _) hc⟩

theorem loadLenient_eq (h : ∀ x ∈ triples, ∀ f, x.resolve p ≠ .error (.fault f)) :
    book.loadLenient p triples =
      .ok (book.placeSome (.empty p) (book.placementOrder (Triple.markedStarts p triples))) := by
  rw [loadLenient, mapM_eq_ok fun x hx => PlacementError.toOption_eq_ok fun f hf => ?_]
  · rw [ok_bind, List.filterMap_map]
    rfl
  · cases hres : x.resolve p with
    | ok c =>
      rw [hres] at hf
      cases hf
    | error e =>
      rw [hres] at hf
      cases hf
      exact h x hx f hres

/-- Lenient loading gives a schedule unless a number grows too large. -/
theorem exists_loadLenient_iff : (∃ s, book.loadLenient p triples = .ok s) ↔
    ∀ x ∈ triples, ∀ f, x.resolve p ≠ .error (.fault f) := by
  constructor
  · rintro ⟨s, hs⟩ x hx f hf
    obtain ⟨starts, hstarts, -⟩ := bind_eq_ok_iff.1 hs
    obtain ⟨start, hstart⟩ := exists_of_mapM_eq_ok hstarts hx
    rw [hf] at hstart
    cases hstart
  · intro h
    exact ⟨_, loadLenient_eq h⟩

/-- What is to be placed are starts of the program. -/
theorem isOf_of_mem_placementOrder
    (hc : c ∈ book.placementOrder (Triple.markedStarts p triples)) : c.IsOf p := by
  obtain ⟨marked, hmem⟩ := mem_placementOrder.1 hc
  exact Triple.isOf_of_mem_markedStarts hmem

/-- **The order of the triples does not matter.** -/
theorem load_eq_of_perm {l : List Triple} (hl : l.Perm triples)
    (h : ∀ x ∈ triples, ∃ c, x.resolve p = .ok c) : book.load p l = book.load p triples := by
  rw [load_eq h, load_eq fun x hx => h x (hl.mem_iff.1 hx),
    placementOrder_eq_of_perm (Triple.markedStarts_perm hl)]

/-- **For lenient loading it does not matter either how often a triple is given.** -/
theorem loadLenient_eq_of_mem_iff (hdup : .duplicateSections ∈ book.rules) {l : List Triple}
    (hl : ∀ x, x ∈ l ↔ x ∈ triples) (h : ∀ x ∈ triples, ∀ f, x.resolve p ≠ .error (.fault f)) :
    book.loadLenient p l = book.loadLenient p triples := by
  rw [loadLenient_eq h, loadLenient_eq fun x hx => h x ((hl x).1 hx),
    placeSome_placementOrder_congr hdup Schedule.isOrdered_empty (Triple.mem_markedStarts_congr hl)]

/-- **All starts are placed, or one is in conflict.** -/
theorem load_cases (hdup : .duplicateSections ∈ book.rules) (hroom : .roomConflict ∈ book.rules)
    (h : ∀ x ∈ triples, ∃ c, x.resolve p = .ok c) :
    (∃ id q reason, book.load p triples = .error (.conflict id q reason)) ∨
    ∃ s, book.load p triples = .ok s ∧ book.loadLenient p triples = .ok s ∧
      s.starts.Perm ((Triple.markedStarts p triples).map (·.2)) := by
  rw [load_eq h, loadLenient_eq fun x hx => Triple.resolve_ne_fault (h x hx)]
  cases hload : book.placeAll (.empty p)
    (book.placementOrder (Triple.markedStarts p triples)) with
  | error e =>
    obtain ⟨before, c, after, -, t, -, -, rfl⟩ := placeAll_eq_error_iff.1 hload
    exact .inl ⟨_, _, _, rfl⟩
  | ok s =>
    refine .inr ⟨s, rfl, congrArg _ (placeSome_of_placeAll hload), ?_⟩
    exact (starts_placeAll_empty hdup hroom (fun c => isOf_of_mem_placementOrder) hload).trans
      (placementOrder_perm _ _)

end Loading

/-- **Loading does not depend on the order of the triples, and lenient loading not on how often they
are given.  What is loaded are the starts of the triples, and what lenient loading keeps can be
written out and loaded.** -/
theorem load_is_determined (hdup : .duplicateSections ∈ book.rules)
    (hroom : .roomConflict ∈ book.rules) {triples : List Triple}
    (hresolve : ∀ x ∈ triples, ∃ c, x.resolve p = .ok c) :
    (∀ l : List Triple, l.Perm triples → book.load p l = book.load p triples) ∧
    (∀ l : List Triple, (∀ x, x ∈ l ↔ x ∈ triples) →
      book.loadLenient p l = book.loadLenient p triples) ∧
    ((∃ id q reason, book.load p triples = .error (.conflict id q reason)) ∨
      ∃ s, book.load p triples = .ok s ∧ book.loadLenient p triples = .ok s ∧
        s.starts.Perm ((Triple.markedStarts p triples).map (·.2))) ∧
    ∃ s, book.loadLenient p triples = .ok s ∧
      ((∀ x ∈ triples, ∀ c, x.resolve p = .ok c → x.locked = book.pins.holds c) →
        book.load p (book.triples s) = .ok s) := by
  have hmakes : ∀ x ∈ triples, ∀ f, x.resolve p ≠ .error (.fault f) := fun x hx =>
    Triple.resolve_ne_fault (hresolve x hx)
  refine ⟨fun l hl => load_eq_of_perm hl hresolve,
    fun l hl => loadLenient_eq_of_mem_iff hdup hl hmakes, load_cases hdup hroom hresolve, _,
    loadLenient_eq hmakes, fun hmarks => ?_⟩
  refine load_triples_placeSome hdup hroom (fun c => isOf_of_mem_placementOrder)
    (pairwise_placementOrder fun e he => ?_)
  obtain ⟨x, hx, hc, hmarked⟩ := Triple.mem_markedStarts_iff.1 he
  exact hmarked.symm.trans (hmarks x hx _ hc)

end Rulebook

namespace Sequel

/-- Two starts that exclude each other, and one that excludes the first of them. -/
def contested : List Triple := [moved.triple false, second.triple false, first.triple false]

theorem placementOrder_contested : (bookOf []).placementOrder
    (Triple.markedStarts program contested) = [first, moved, second] := by
  have hmarked : Triple.markedStarts program contested =
      [moved, second, first].map fun c => (false, c) := by
    rfl
  have hperm : [moved, second, first].Perm [first, moved, second] := by decide
  rw [hmarked, (isUnpinned_bookOf []).placementOrder_eq, sorted_eq_of_perm hperm]
  exact List.mergeSort_of_pairwise (by decide)

theorem resolve_contested : ∀ x ∈ contested, ∃ c, x.resolve program = .ok c := by
  simp only [contested, List.forall_mem_cons]
  exact ⟨⟨_, rfl⟩, ⟨_, rfl⟩, ⟨_, rfl⟩, List.forall_mem_nil _⟩

/-- The start that is in the way is placed, as it comes first in time. -/
theorem starts_loadLenient_contested {s : Schedule program}
    (h : (bookOf []).loadLenient program contested = .ok s) : s.starts = [first, second] := by
  rw [Rulebook.loadLenient_eq (Rulebook.exists_loadLenient_iff.1 ⟨s, h⟩),
    placementOrder_contested] at h
  cases h
  decide +kernel

end Sequel

theorem load_is_determined_contested :
    (Sequel.bookOf []).load Sequel.program Sequel.contested.reverse =
        (Sequel.bookOf []).load Sequel.program Sequel.contested ∧
      ∃ s : Schedule Sequel.program,
        (Sequel.bookOf []).loadLenient Sequel.program Sequel.contested = .ok s ∧
        s.starts = [Sequel.first, Sequel.second] ∧
        (Sequel.bookOf []).load Sequel.program ((Sequel.bookOf []).triples s) = .ok s := by
  obtain ⟨hperm, -, -, s, hs, hreload⟩ := Rulebook.load_is_determined
    (Sequel.duplicateSections_mem []) (Sequel.roomConflict_mem []) Sequel.resolve_contested
  refine ⟨hperm _ (List.reverse_perm _), s, hs, Sequel.starts_loadLenient_contested hs,
    hreload fun x hx c _ => ?_⟩
  have hunmarked : ∀ x ∈ Sequel.contested, x.locked = false := by decide
  rw [hunmarked x hx, (Sequel.isUnpinned_bookOf []).pins_holds]

/-- **What lenient loading leaves out could not be added in the end**, unless the rulebook minds
prerequisites. -/
theorem Rulebook.loadLenient_is_maximal (hbook : book.IsBuiltIn)
    (hdup : .duplicateSections ∈ book.rules) (hroom : .roomConflict ∈ book.rules)
    (hpre : .prerequisites ∉ book.rules) (p : Program) (triples : List Triple) :
    ((∃ s, book.loadLenient p triples = .ok s) ↔
      ∀ x ∈ triples, ∀ f, x.resolve p ≠ .error (.fault f)) ∧
    ∀ s, book.loadLenient p triples = .ok s → ∀ x ∈ triples, ∀ c, x.resolve p = .ok c →
      c ∉ s.starts → (book.assign s c).1.isValid = false ∧ (book.assign s c).2 = s := by
  refine ⟨exists_loadLenient_iff, fun s hs x hx c hc hout => ?_⟩
  rw [loadLenient_eq (exists_loadLenient_iff.1 ⟨s, hs⟩)] at hs
  cases hs
  have hof : ∀ c ∈ book.placementOrder (Triple.markedStarts p triples), c.IsOf p :=
    fun c => isOf_of_mem_placementOrder
  have hmem : c ∈ book.placementOrder (Triple.markedStarts p triples) :=
    mem_placementOrder.2 ⟨x.locked, Triple.mem_markedStarts_iff.2 ⟨x, hx, hc, rfl⟩⟩
  have hnot := mt (coherent_placeSome hdup hroom .empty hof).mem_starts_iff.2 hout
  have hinvalid :=
    (holds_or_not_isValid_placeSome hdup hroom hbook hpre .empty hof hmem).resolve_left hnot
  exact ⟨Bool.eq_false_iff.2 hinvalid, assign_of_not_isValid hinvalid⟩

theorem loadLenient_is_maximal_contested : ∃ s : Schedule Sequel.program,
    (Sequel.bookOf []).loadLenient Sequel.program Sequel.contested = .ok s ∧
      s.starts = [Sequel.first, Sequel.second] ∧
      ((Sequel.bookOf []).assign s Sequel.moved).1.isValid = false := by
  obtain ⟨hexists, hrejects⟩ := Rulebook.loadLenient_is_maximal
    (Sequel.isUnpinned_bookOf []).isBuiltIn (Sequel.duplicateSections_mem [])
    (Sequel.roomConflict_mem []) (@Sequel.rule_not_mem _ .prerequisites (by decide))
    Sequel.program Sequel.contested
  obtain ⟨s, hs⟩ := hexists.2 fun x hx => Triple.resolve_ne_fault (Sequel.resolve_contested x hx)
  have hstarts := Sequel.starts_loadLenient_contested hs
  refine ⟨s, hs, hstarts, (hrejects s hs _ List.mem_cons_self Sequel.moved rfl ?_).1⟩
  rw [hstarts]
  decide

end Timetable

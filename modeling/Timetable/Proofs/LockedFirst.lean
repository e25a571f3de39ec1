import Timetable.Proofs.Loading
import Timetable.Scheduler

/-!
# Locked triples come first

A triple is locked if it is marked so or if it names the place its section is pinned to
(`Rulebook.locks`).  Which starts are locked and which are free decides the placement order: it is
that of the locked ones alone, followed by that of the free ones (`placementOrder_filter_append`).
As placing a start takes none away, what is loaded is an extension of what the locked triples alone
amount to, whatever the free ones are, when they take place and whom they concern.

`Rulebook.load_keeps_locked` says so for both ways of loading, and for the schedule that a search
starts from.
-/

set_option autoImplicit false

namespace Timetable

variable {p : Program} {book : Rulebook} {s t : Schedule p} {triples : List Triple}

namespace Rulebook

/-! ## Locked triples -/

/-- Whether a triple is marked as locked or stands for a start at the place its section is pinned
to. -/
def locks (book : Rulebook) (p : Program) (x : Triple) : Bool :=
  x.locked || (x.resolve p).toOption.any book.pins.holds

theorem isLocked_of_resolve {x : Triple} {c : Start} (hc : x.resolve p = .ok c) :
    book.isLocked (x.locked, c) = book.locks p x := by
  rw [locks, hc]
  rfl

/-- The starts of the locked triples are the locked ones of all starts. -/
theorem markedStarts_filter_locks (book : Rulebook) (p : Program) (triples : List Triple) :
    Triple.markedStarts p (triples.filter (book.locks p)) =
      (Triple.markedStarts p triples).filter book.isLocked := by
  rw [Triple.markedStarts, Triple.markedStarts, List.filterMap_filter, List.filter_filterMap]
  refine List.filterMap_congr fun x _ => ?_
  cases hx : x.resolve p with
  | error e => simp [Except.map, Except.toOption]
  | ok c => simp [Except.map, Except.toOption, Option.filter, isLocked_of_resolve hx]

/-! ## What is loaded -/

/-- Whatever can be loaded stands for starts. -/
theorem exists_resolve_of_load (h : book.load p triples = .ok s) :
    ∀ x ∈ triples, ∃ c, x.resolve p = .ok c := by
  intro x hx
  obtain ⟨starts, hstarts, -⟩ := bind_eq_ok_iff.1 h
  obtain ⟨start, hstart⟩ := exists_of_mapM_eq_ok hstarts hx
  obtain ⟨c, hc, -⟩ := map_eq_ok_iff.1 hstart
  exact ⟨c, hc⟩

/-- What is loaded are the starts of all triples. -/
theorem mem_starts_of_load (hdup : .duplicateSections ∈ book.rules)
    (hroom : .roomConflict ∈ book.rules) (h : book.load p triples = .ok s) {x : Triple}
    (hx : x ∈ triples) : ∃ c, x.resolve p = .ok c ∧ c ∈ s.starts := by
  have hresolve := exists_resolve_of_load h
  obtain ⟨c, hc⟩ := hresolve x hx
  rcases load_cases hdup hroom hresolve with ⟨id, q, reason, he⟩ | ⟨t, ht, -, hperm⟩
  · rw [he] at h
    cases h
  · rw [ht] at h
    cases h
    refine ⟨c, hc, hperm.mem_iff.2 (List.mem_map.2 ⟨(x.locked, c), ?_, rfl⟩)⟩
    exact Triple.mem_markedStarts_iff.2 ⟨x, hx, hc, rfl⟩

/-! ## Loading the locked triples first -/

/-- **The locked starts are placed first, in the order in which they are placed alone.** -/
theorem placementOrder_filter_append (book : Rulebook) (starts : List (Bool × Start)) :
    book.placementOrder starts = book.placementOrder (starts.filter book.isLocked) ++
      book.placementOrder (starts.filter (!book.isLocked ·)) := by
  have hnil : sorted ([] : List Start) = [] := List.mergeSort_nil
  simp [placementOrder_eq_append, List.filter_filter, hnil]

/-- The locked triples and the free ones, each in the placement order. -/
theorem placementOrder_markedStarts (book : Rulebook) (p : Program) (triples : List Triple) :
    book.placementOrder (Triple.markedStarts p triples) =
      book.placementOrder (Triple.markedStarts p (triples.filter (book.locks p))) ++
        book.placementOrder ((Triple.markedStarts p triples).filter (!book.isLocked ·)) := by
  rw [markedStarts_filter_locks, ← placementOrder_filter_append]

section Locked

variable (hresolve : ∀ x ∈ triples, ∃ c, x.resolve p = .ok c)
  (hlocked : book.load p (triples.filter (book.locks p)) = .ok s)

include hresolve hlocked

theorem placeAll_locked : book.placeAll (.empty p)
    (book.placementOrder (Triple.markedStarts p (triples.filter (book.locks p)))) = .ok s := by
  rw [← load_eq fun x hx => hresolve x (List.mem_filter.1 hx).1]
  exact hlocked

/-- **Lenient loading keeps whatever the locked triples amount to.** -/
theorem exists_loadLenient_isPartOf (hdup : .duplicateSections ∈ book.rules)
    (hroom : .roomConflict ∈ book.rules) :
    ∃ t, book.loadLenient p triples = .ok t ∧ s.Coherent ∧ t.Coherent ∧ s.IsPartOf t := by
  have hplaced := placeAll_locked hresolve hlocked
  have hs := (Edits.load hlocked).coherent hdup hroom .empty
  have hfree : ∀ c ∈ book.placementOrder
      ((Triple.markedStarts p triples).filter (!book.isLocked ·)), c.IsOf p := by
    intro c hc
    obtain ⟨marked, hmem⟩ := mem_placementOrder.1 hc
    exact Triple.isOf_of_mem_markedStarts (List.mem_filter.1 hmem).1
  refine ⟨_, loadLenient_eq fun x hx => Triple.resolve_ne_fault (hresolve x hx), hs, ?_, ?_⟩ <;>
    rw [placementOrder_markedStarts, placeSome_append, placeSome_of_placeAll hplaced]
  · exact coherent_placeSome hdup hroom hs hfree
  · exact isPartOf_placeSome hdup hroom hs hfree

/-- **If something cannot be placed after the locked triples, it is not locked.** -/
theorem exists_free_of_load_eq_error {e : PlacementError} (h : book.load p triples = .error e) :
    ∃ x ∈ triples, book.locks p x = false ∧ ∃ c, x.resolve p = .ok c ∧ ∃ before after,
      let locked := book.placementOrder (Triple.markedStarts p (triples.filter (book.locks p)))
      book.placementOrder (Triple.markedStarts p triples) = locked ++ before ++ c :: after ∧
        book.StopsAt (.empty p) (locked ++ before) c e := by
  have hplaced := placeAll_locked hresolve hlocked
  rw [load_eq hresolve, placementOrder_markedStarts, placeAll_append hplaced,
    placeAll_eq_error_iff] at h
  obtain ⟨before, c, after, hfree, t, ht, hstop⟩ := h
  obtain ⟨marked, hmem⟩ := mem_placementOrder.1 (hfree ▸ List.mem_append_right before
    List.mem_cons_self)
  obtain ⟨hmem, hunlocked⟩ := List.mem_filter.1 hmem
  obtain ⟨x, hx, hc, rfl⟩ := Triple.mem_markedStarts_iff.1 hmem
  rw [isLocked_of_resolve hc, Bool.not_eq_true'] at hunlocked
  refine ⟨x, hx, hunlocked, c, hc, before, after, ?_, t, ?_, hstop⟩
  · rw [placementOrder_markedStarts, hfree, List.append_assoc]
  · rw [placeAll_append hplaced, ht]

end Locked

/-- **Locked triples never give way to free ones.**  If they can be loaded alone, lenient loading
keeps them all, and what stops loading is a free one.  A search starts with all pinned placements. -/
theorem load_keeps_locked (hdup : .duplicateSections ∈ book.rules)
    (hroom : .roomConflict ∈ book.rules) (p : Program) :
    (∀ triples : List Triple, (∀ x ∈ triples, ∃ c, x.resolve p = .ok c) →
      ∀ s, book.load p (triples.filter (book.locks p)) = .ok s →
        (∃ t, book.loadLenient p triples = .ok t ∧
          ∀ x ∈ triples, book.locks p x = true → ∀ c, x.resolve p = .ok c → c ∈ t.starts) ∧
        ∀ e, book.load p triples = .error e →
          ∃ x ∈ triples, book.locks p x = false ∧ ∃ c, x.resolve p = .ok c ∧ ∃ before after,
            let locked :=
              book.placementOrder (Triple.markedStarts p (triples.filter (book.locks p)))
            book.placementOrder (Triple.markedStarts p triples) = locked ++ before ++ c :: after ∧
              book.StopsAt (.empty p) (locked ++ before) c e) ∧
    ∀ scheduler : Scheduler p, scheduler.rulebook = book → ∀ triples s,
      scheduler.initial triples = .ok s →
        ∀ x ∈ scheduler.config.ruleConfig.pinned, ∃ c, x.resolve p = .ok c ∧ c ∈ s.starts := by
  refine ⟨fun triples hresolve s hlocked => ⟨?_, fun e =>
    exists_free_of_load_eq_error hresolve hlocked⟩, ?_⟩
  · obtain ⟨t, ht, hs, hcoh, hpart⟩ := exists_loadLenient_isPartOf hresolve hlocked hdup hroom
    refine ⟨t, ht, fun x hx hlocks c hc => hcoh.mem_starts_iff.2 (hpart c (hs.mem_starts_iff.1 ?_))⟩
    obtain ⟨c', hc', hmem⟩ :=
      mem_starts_of_load hdup hroom hlocked (List.mem_filter.2 ⟨hx, hlocks⟩)
    rw [hc] at hc'
    cases hc'
    exact hmem
  · rintro scheduler rfl triples s hs x hx
    exact mem_starts_of_load hdup hroom hs (List.mem_append_left _ hx)

end Rulebook

namespace Sequel

/-- The second course is pinned to the first period, where the first one comes earlier in order. -/
def pinning : RuleConfig where
  rules := [.duplicateSections, .roomConflict]
  pinned := [moved.triple false]

/-- A triple that is free and one that is locked by the configuration. -/
def rivals : List Triple := [first.triple false, moved.triple false]

theorem resolve_rivals : ∀ x ∈ rivals, ∃ c, x.resolve program = .ok c := by
  simp only [rivals, List.forall_mem_cons]
  exact ⟨⟨_, rfl⟩, ⟨_, rfl⟩, List.forall_mem_nil _⟩

theorem load_pinned : pinning.rulebook.load program [moved.triple false] =
    .ok ((Schedule.empty program).add moved) := by
  have hmarked : Triple.markedStarts program [moved.triple false] = [(false, moved)] := by rfl
  have horder : pinning.rulebook.placementOrder [(false, moved)] = [moved] :=
    List.perm_singleton.1 (Rulebook.placementOrder_perm _ _)
  rw [Rulebook.load_eq (by simpa using ⟨moved, rfl⟩), hmarked, horder]
  exact Rulebook.placeAll_cons_of_isValid (by decide +kernel)

end Sequel

theorem load_keeps_locked_rivals :
    (∃ t, Sequel.pinning.rulebook.loadLenient Sequel.program Sequel.rivals = .ok t ∧
        Sequel.moved ∈ t.starts) ∧
      (∀ e, Sequel.pinning.rulebook.load Sequel.program Sequel.rivals = .error e →
        ∃ reason, e = .conflict Sequel.first.sectionId Sequel.first.periodId reason) ∧
      ∃ s, ({ config := { ruleConfig := Sequel.pinning } : Scheduler Sequel.program }).initial [] =
        .ok s ∧ Sequel.moved ∈ s.starts := by
  obtain ⟨hload, hinitial⟩ := @Rulebook.load_keeps_locked Sequel.pinning.rulebook
    List.mem_cons_self (List.mem_cons_of_mem _ List.mem_cons_self) Sequel.program
  have hlocked : Sequel.rivals.filter (Sequel.pinning.rulebook.locks Sequel.program) =
      [Sequel.moved.triple false] := by
    decide +kernel
  have honly : ∀ x ∈ Sequel.rivals, Sequel.pinning.rulebook.locks Sequel.program x = false →
      x = Sequel.first.triple false := by
    decide +kernel
  obtain ⟨⟨t, ht, hkept⟩, hstop⟩ := hload _ Sequel.resolve_rivals _ (hlocked ▸ Sequel.load_pinned)
  refine ⟨⟨t, ht, hkept (Sequel.moved.triple false) (by decide) (by decide +kernel) _ rfl⟩,
    fun e he => ?_, _, Sequel.load_pinned, ?_⟩
  · obtain ⟨x, hx, hfree, c, hc, before, after, -, u, -, -, rfl⟩ := hstop e he
    cases honly x hx hfree
    cases hc
    exact ⟨_, rfl⟩
  · obtain ⟨c, hc, hmem⟩ := hinitial ⟨{ ruleConfig := Sequel.pinning }⟩ rfl [] _
      Sequel.load_pinned _ List.mem_cons_self
    cases hc
    exact hmem

end Timetable

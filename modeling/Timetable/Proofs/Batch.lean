import Timetable.Move.Kind
import Timetable.Proofs.Outcome
import Timetable.Proofs.Placement

/-!
# What the placing moves try

A placing move draws a batch of the sections that are not placed (`Move.IsBatch`) and tries a start
for each of them, one after the other: a random one, or one in a free place of a room.  What holds of
the schedule at first and is preserved by placing a start that may be tried holds in the end.

* `Move.meets_placeBatch` says so for the moves that draw starts, `Move.meets_fillRooms` for the one
  that fills rooms.  The property may depend on the batch, which is fixed before anything is placed.
* A move is given up only if the end of a run does not fit its machine word
  (`Program.Overruns`).
-/

set_option autoImplicit false

namespace Timetable

variable {G : Type} [RandomSource G] {p : Program}

/-! ## Making starts -/

namespace PlacementError

variable {α : Type} {x : Except PlacementError α}

theorem toOption_eq_ok_some_iff {a : α} : toOption x = .ok (some a) ↔ x = .ok a := by
  rw [toOption.eq_def]
  split
  · simp
  · simp
  · simp

theorem toOption_eq_error_iff {f : Fault} : toOption x = .error f ↔ x = .error (.fault f) := by
  rw [toOption.eq_def]
  split
  · simp
  · simp
  · next e h => simpa using h f

end PlacementError

/-- The run of a section from some period on ends beyond what its machine word can hold. -/
def Program.Overruns (p : Program) (id : SectionId) (f : Fault) : Prop :=
  f = .overflow ∧ ∃ q ∈ p.periods, wordSize 32 ≤ q.index + (p.sectionOf id).length

namespace Start

variable {q : PeriodId} {r : RoomId} {id : SectionId} {c : Start}

theorem isOf_of_toOption_make (h : PlacementError.toOption (Start.make p q r id) = .ok (some c)) :
    c.IsOf p ∧ c.periodId = q ∧ c.roomId = r ∧ c.sectionId = id :=
  isOf_of_make (PlacementError.toOption_eq_ok_some_iff.1 h)

/-- Whatever is made is a start of the section in the room from the period on. -/
theorem meets_toOption_make (p : Program) (q : PeriodId) (r : RoomId) (id : SectionId) :
    Meets (fun drawn => ∀ c, drawn = some c →
        c.IsOf p ∧ c.periodId = q ∧ c.roomId = r ∧ c.sectionId = id) (p.Overruns id)
      (PlacementError.toOption (Start.make p q r id)) := by
  cases h : PlacementError.toOption (Start.make p q r id) with
  | ok drawn =>
    rintro c rfl
    exact isOf_of_toOption_make h
  | error f =>
    obtain ⟨period, room, held, hq, -, hheld, hword, rfl⟩ :=
      make_eq_fault_iff.1 (PlacementError.toOption_eq_error_iff.1 h)
    refine ⟨rfl, period, (p.period?_eq_some_iff.1 hq).1, ?_⟩
    rwa [Program.sectionOf, hheld]

end Start

namespace Move

/-- What is drawn for a section is a start of it, in a compatible room from a compatible period
on. -/
theorem meets_randomStart (p : Program) (id : SectionId) (rng : G) :
    Meets (fun drawn => ∀ c, drawn.1 = some c → c.IsOf p ∧ c.sectionId = id ∧
        c.roomId ∈ p.compatibleRooms id ∧ c.periodId ∈ p.compatiblePeriods id) (p.Overruns id)
      (randomStart p id rng) := by
  rw [randomStart]
  split
  · exact nofun
  · next room rng' hroom =>
    split
    · exact nofun
    · next period rng'' hperiod =>
      refine (Start.meets_toOption_make p period room id).map fun start hstart c hc => ?_
      obtain ⟨hof, rfl, rfl, hid⟩ := hstart c hc
      exact ⟨hof, hid, RandomSource.mem_of_choose (congrArg Prod.fst hroom),
        RandomSource.mem_of_choose (congrArg Prod.fst hperiod)⟩

theorem isOf_of_randomStart {id : SectionId} {rng rng' : G} {c : Start}
    (h : randomStart p id rng = .ok (some c, rng')) : c.IsOf p :=
  ((meets_randomStart p id rng).of_eq_ok h c rfl).1

/-! ## One start after the other -/

section Loops

variable {P : Schedule p → Prop} {s : Schedule p}

/-- **Trying starts preserves what is preserved by placing any start of the sections.** -/
theorem meets_placeEach {place : Schedule p → Start → Schedule p} {ids : List SectionId}
    (hplace : ∀ {s c}, c.IsOf p → c.sectionId ∈ ids → P s → P (place s c)) (hs : P s)
    (rng : G) : Meets (fun step => P step.state) (fun f => ∃ id ∈ ids, p.Overruns id f)
      (placeEach place ids s rng) := by
  induction ids generalizing s rng with
  | nil => exact hs
  | cons id ids ih =>
    rw [placeEach]
    refine ((meets_randomStart p id rng).imp_error fun f hf => ⟨id, List.mem_cons_self, hf⟩).bind ?_
    rintro ⟨start, rng'⟩ hstart
    refine (ih (fun hc hid => hplace hc (List.mem_cons_of_mem id hid)) ?_ rng').imp_error
      fun f ⟨id', hid', hf⟩ => ⟨id', List.mem_cons_of_mem id hid', hf⟩
    cases start with
    | none => exact hs
    | some c =>
      obtain ⟨hof, hid, -, -⟩ := hstart c rfl
      exact hplace hof (hid ▸ List.mem_cons_self) hs

/-- **Filling places preserves what is preserved by forcing any start into its place.** -/
theorem meets_fillPlaces {book : Rulebook} {places : List (SectionId × RoomId × PeriodId)}
    (hforce : ∀ {s c}, c.IsOf p → (c.sectionId, c.roomId, c.periodId) ∈ places → P s →
      P (book.force s c).2) (hs : P s) :
    Meets P (fun f => ∃ e ∈ places, p.Overruns e.1 f) (fillPlaces book places s) := by
  induction places generalizing s with
  | nil => exact hs
  | cons e places ih =>
    obtain ⟨id, room, period⟩ := e
    rw [fillPlaces]
    refine ((Start.meets_toOption_make p period room id).imp_error
      fun f hf => ⟨(id, room, period), List.mem_cons_self, hf⟩).bind fun start hstart => ?_
    refine (ih (fun hc hplace => hforce hc (List.mem_cons_of_mem _ hplace)) ?_).imp_error
      fun f ⟨e, he, hf⟩ => ⟨e, List.mem_cons_of_mem _ he, hf⟩
    cases start with
    | none => exact hs
    | some c =>
      obtain ⟨hof, rfl, rfl, rfl⟩ := hstart c rfl
      exact hforce hof List.mem_cons_self hs

end Loops

/-! ## Batches -/

variable {s : Schedule p} {temperature : Float}

/-- Some sections that are not placed, as many at most as the temperature allows. -/
structure IsBatch (s : Schedule p) (temperature : Float) (ids : List SectionId) : Prop where
  subset : ids ⊆ s.unscheduled
  length_le : ids.length ≤ batchSize s.unscheduled.length temperature

theorem isBatch_nil (s : Schedule p) (temperature : Float) : IsBatch s temperature [] where
  subset := List.nil_subset _
  length_le := Nat.zero_le _

/-- Some sections of a shuffled list are a batch. -/
theorem isBatch_of_perm {ids l : List SectionId} (hids : ids.Perm s.unscheduled) (hl : l ⊆ ids)
    (hlength : l.length ≤ batchSize ids.length temperature) : IsBatch s temperature l where
  subset _ hid := hids.subset (hl hid)
  length_le := hids.length_eq ▸ hlength

/-- **The moves that draw starts keep what is kept by placing starts of a batch.** -/
theorem meets_placeBatch {place : Schedule p → Start → Schedule p}
    {P : List SectionId → Schedule p → Prop}
    (hplace : ∀ {ids s c}, c.IsOf p → c.sectionId ∈ ids → P ids s → P ids (place s c))
    (hs : ∀ ids, P ids s) (temperature : Float) (rng : G) :
    Meets (fun step => ∃ ids, IsBatch s temperature ids ∧ P ids step.state)
      (fun f => ∃ id ∈ s.unscheduled, p.Overruns id f) (placeBatch place s temperature rng) := by
  rw [placeBatch]
  split
  · exact ⟨[], isBatch_nil s temperature, hs []⟩
  have hbatch : IsBatch s temperature ((RandomSource.shuffle rng s.unscheduled).1.take
      (batchSize (RandomSource.shuffle rng s.unscheduled).1.length temperature)) :=
    isBatch_of_perm (RandomSource.shuffle_perm rng _) (List.take_subset _ _) (List.length_take_le _ _)
  exact ((meets_placeEach hplace (hs _) _).imp fun step hstep => ⟨_, hbatch, hstep⟩).imp_error
    fun f ⟨id, hid, hf⟩ => ⟨id, hbatch.subset hid, hf⟩

/-- **The move that fills rooms keeps what is kept by forcing a batch into free places.** -/
theorem meets_fillRooms {book : Rulebook}
    {P : List (SectionId × RoomId × PeriodId) → Schedule p → Prop}
    (hforce : ∀ {places s c}, c.IsOf p → (c.sectionId, c.roomId, c.periodId) ∈ places →
      P places s → P places (book.force s c).2)
    (hs : ∀ places, P places s) (temperature : Float) (rng : G) :
    Meets (fun step => ∃ places, IsBatch s temperature (places.map (·.1)) ∧
        (∀ e ∈ places, e.2 ∈ freePlaces s) ∧ P places step.state)
      (fun f => ∃ id ∈ s.unscheduled, p.Overruns id f) (fillRooms book s temperature rng) := by
  rw [fillRooms]
  split
  · exact ⟨[], isBatch_nil s temperature, nofun, hs []⟩
  simp only
  generalize hids : RandomSource.shuffle rng s.unscheduled = ids
  generalize hfree : RandomSource.shuffle ids.2 (freePlaces s) = free
  have hidsPerm : ids.1.Perm s.unscheduled := hids ▸ RandomSource.shuffle_perm rng _
  have hfreePerm : free.1.Perm (freePlaces s) := hfree ▸ RandomSource.shuffle_perm ids.2 _
  generalize hplaces : (ids.1.zip free.1).take (batchSize ids.1.length temperature) = places
  have hmem : ∀ e ∈ places, e.1 ∈ ids.1 ∧ e.2 ∈ free.1 := fun e he =>
    List.of_mem_zip (List.mem_of_mem_take (hplaces ▸ he))
  have hbatch : IsBatch s temperature (places.map (·.1)) := by
    refine isBatch_of_perm hidsPerm (fun id hid => ?_) ?_
    · obtain ⟨e, he, rfl⟩ := List.mem_map.1 hid
      exact (hmem e he).1
    · rw [List.length_map, ← hplaces]
      exact List.length_take_le _ _
  have hplace : ∀ e ∈ places, e.2 ∈ freePlaces s := fun e he => hfreePerm.mem_iff.1 (hmem e he).2
  refine ((meets_fillPlaces hforce (hs places)).imp_error fun f ⟨e, he, hf⟩ =>
    ⟨e.1, hbatch.subset (List.mem_map_of_mem he), hf⟩).bind fun t ht => ?_
  exact ⟨places, hbatch, hplace, ht⟩

end Move

end Timetable

import Timetable.Proofs.Freeing
import Timetable.Proofs.Pinned

/-!
# Placing moves never relocate

The moves that place sections may take out others to make room, also those that they have placed
themselves shortly before.  Still no section is moved from one place to another: what is placed
afterwards has been placed at the same start before, or its section had not been placed, because only
such sections are drawn, once, from the schedule before the move.  Which starts are in the way, and
therefore which rules there are, makes no difference to this (`Schedule.IsFramed`).

`Reachable.placing_relocates_nothing` says so for the three moves, along with how many sections are
placed at most, that the one that evicts nothing loses nothing, and that the one that fills rooms
places sections where a room was available and free.
-/

set_option autoImplicit false

namespace Timetable

variable {G : Type} [RandomSource G] {p : Program} {book : Rulebook} {s t : Schedule p}

namespace Schedule

/-- Under any rules every start is listed under its own section. -/
theorem keptByEdits_isKeyed (A : Start → Prop) : KeptByEdits A (IsKeyed (p := p)) where
  add _ hs := hs.add _
  remove hs := hs.remove _

/-! ## What is left of a schedule -/

/-- The starts that are not in another schedule. -/
def newStarts (t s : Schedule p) : List Start := t.starts.filter fun a => a ∉ s.starts

/-- Everything in `t` was in `s` already, or it is one of the starts that may have been tried. -/
structure IsFramed (s : Schedule p) (tried : Start → Prop) (t : Schedule p) : Prop
    extends IsKeyed t where
  of_holds : ∀ {a}, t.Holds a → s.Holds a ∨ tried a

theorem isFramed_refl (hs : s.IsKeyed) (tried : Start → Prop) : s.IsFramed tried s where
  toIsKeyed := hs
  of_holds := .inl

/-- **Whatever is evicted for a start that is tried, the frame stays the same.** -/
theorem keptByEdits_isFramed (s : Schedule p) (tried : Start → Prop) :
    KeptByEdits tried (s.IsFramed tried) where
  add {t c} hc ht := by
    refine ⟨ht.toIsKeyed.add c, fun {a} ha => ?_⟩
    rw [Holds, ht.startOf?_add] at ha
    split at ha
    · cases ha
      exact .inr hc
    · exact ht.of_holds ha
  remove {t b} ht := by
    refine ⟨ht.toIsKeyed.remove b, fun {a} ha => ?_⟩
    rw [Holds, ht.startOf?_remove] at ha
    split at ha
    · cases ha
    · exact ht.of_holds ha

theorem IsFramed.tried_of_mem_newStarts {tried : Start → Prop} (hs : s.IsKeyed)
    (ht : s.IsFramed tried t) {a : Start} (ha : a ∈ t.newStarts s) : tried a := by
  obtain ⟨ha, hnew⟩ := List.mem_filter.1 ha
  refine (ht.of_holds (ht.mem_starts_iff.1 ha)).resolve_left fun hold => ?_
  simp [hs.mem_starts_iff.2 hold] at hnew

/-! ## Batches -/

theorem startOf?_of_mem_unscheduled {id : SectionId} (h : id ∈ s.unscheduled) :
    s.startOf? id = none := by
  have hnot := (List.mem_filter.1 h).2
  simpa [OrderedMap.contains, startOf?] using hnot

/-- What was placed is where it was or not placed any more, and sections that were not placed are, as
many at most as make up a batch. -/
structure PlacesBatch (t s : Schedule p) (temperature : Float) : Prop where
  stays : ∀ id ∈ s.scheduled, t.startOf? id = s.startOf? id ∨ t.startOf? id = none
  unscheduled : ∀ a ∈ t.newStarts s, a.sectionId ∈ s.unscheduled
  length_le : (t.newStarts s).length ≤ batchSize s.unscheduled.length temperature

/-- **If only starts of a batch have been tried, a batch has been placed.** -/
theorem IsFramed.placesBatch (hs : s.IsKeyed) {temperature : Float} {ids : List SectionId}
    (hids : Move.IsBatch s temperature ids) {tried : Start → Prop} (ht : s.IsFramed tried t)
    (htried : ∀ a, tried a → a.sectionId ∈ ids) : t.PlacesBatch s temperature where
  stays id hid := by
    obtain ⟨a, ha⟩ := (OrderedMap.mem_keys_iff hs.sections).1 hid
    change s.startOf? id = some a at ha
    cases hb : t.startOf? id with
    | none => exact .inr rfl
    | some b =>
      have hid := ht.sectionId_eq hb
      rcases ht.of_holds (ht.holds_of_startOf? hb) with hold | hnew
      · rw [← hid]
        exact .inl (Eq.symm hold)
      · have hnone := startOf?_of_mem_unscheduled (hids.subset (htried b hnew))
        rw [hid, ha] at hnone
        cases hnone
  unscheduled a ha := hids.subset (htried a (ht.tried_of_mem_newStarts hs ha))
  length_le := by
    have hnodup : ((t.newStarts s).map (·.sectionId)).Nodup :=
      ht.nodup_sectionIds.sublist (List.filter_sublist.map _)
    have hsub : (t.newStarts s).map (·.sectionId) ⊆ ids := by
      intro id hid
      obtain ⟨a, ha, rfl⟩ := List.mem_map.1 hid
      exact htried a (ht.tried_of_mem_newStarts hs ha)
    have hlength := (List.subperm_of_subset hnodup hsub).length_le
    rw [List.length_map] at hlength
    exact Nat.le_trans hlength hids.length_le

end Schedule

/-! ## The three moves -/

namespace Move

open Schedule

/-- A free place is one that the room lists and in which nothing is going on. -/
theorem of_mem_freePlaces {room : RoomId} {q : PeriodId} (h : (room, q) ∈ freePlaces s) :
    q ∈ p.roomPeriods room ∧ s.occurringAt? (p.slotOf q) room = none := by
  obtain ⟨hplace, hfree⟩ := List.mem_filter.1 h
  obtain ⟨r, -, hplace⟩ := List.mem_flatMap.1 hplace
  obtain ⟨q', hq, he⟩ := List.mem_map.1 hplace
  cases he
  exact ⟨hq, Option.isNone_iff_eq_none.1 hfree⟩

variable (hs : s.IsKeyed) (temperature : Float) (rng : G)

include hs

/-- **Placing sections where nothing is in the way adds a batch to what there is.** -/
theorem meets_placeValid (book : Rulebook) :
    Meets (fun step => step.state.PlacesBatch s temperature ∧ s.starts ⊆ step.state.starts)
      (fun f => ∃ id ∈ s.unscheduled, p.Overruns id f) (placeValid book s temperature rng) := by
  refine (meets_placeBatch (P := fun ids t => s.IsFramed (fun a => a.sectionId ∈ ids) t ∧
      (ids ⊆ s.unscheduled → s.IsPartOf t)) (fun {ids t c} _ hid ⟨ht, hpart⟩ => ?_)
    (fun ids => ⟨isFramed_refl hs _, fun _ a ha => ha⟩) temperature rng).imp
      fun step ⟨ids, hids, ht, hpart⟩ => ⟨ht.placesBatch hs hids fun a ha => ha, fun a ha => ?_⟩
  · refine ⟨(keptByEdits_isFramed s _).assign book hid ht, fun hsub a ha => ?_⟩
    rcases book.assign_cases t c with he | ⟨-, he⟩
    · rw [he]
      exact hpart hsub a ha
    · -- the section was not placed in `s`, so nothing is overwritten
      have hne := ha.sectionId_ne (startOf?_of_mem_unscheduled (hsub hid))
      rw [he, Holds, ht.startOf?_add, if_neg hne]
      exact hpart hsub a ha
  · exact ht.mem_starts_iff.2 (hpart hids.subset a (hs.mem_starts_iff.1 ha))

/-- **Forcing sections adds a batch to what is left.** -/
theorem meets_placeForced (book : Rulebook) :
    Meets (fun step => step.state.PlacesBatch s temperature)
      (fun f => ∃ id ∈ s.unscheduled, p.Overruns id f) (placeForced book s temperature rng) := by
  refine (meets_placeBatch (P := fun ids => s.IsFramed fun a => a.sectionId ∈ ids)
    (fun {ids t c} _ hid => (keptByEdits_isFramed s _).force book hid)
    (fun ids => isFramed_refl hs _) temperature rng).imp fun step ⟨ids, hids, ht⟩ => ?_
  exact ht.placesBatch hs hids fun a ha => ha

/-- **Filling rooms adds a batch to what is left, in places that were free.** -/
theorem meets_fillRooms_free (book : Rulebook) :
    Meets (fun step => step.state.PlacesBatch s temperature ∧
        ∀ a ∈ step.state.newStarts s, (a.roomId, a.periodId) ∈ freePlaces s)
      (fun f => ∃ id ∈ s.unscheduled, p.Overruns id f) (fillRooms book s temperature rng) := by
  refine (meets_fillRooms (P := fun places => s.IsFramed fun a =>
      (a.sectionId, a.roomId, a.periodId) ∈ places)
    (fun {places t c} _ hplace => (keptByEdits_isFramed s _).force book hplace)
    (fun places => isFramed_refl hs _) temperature rng).imp
      fun step ⟨places, hids, hfree, ht⟩ => ⟨?_, fun a ha => ?_⟩
  · exact ht.placesBatch hs hids fun a ha => List.mem_map.2 ⟨_, ha, rfl⟩
  · exact hfree _ (ht.tried_of_mem_newStarts hs ha)

end Move

/-- **The moves that place sections never move one.**  What was placed is where it was or not placed
any more, and what is new are as many sections at most as make up a batch, none of which was placed.
Where nothing is evicted nothing is lost, and rooms are filled where they were available and free.

The move may be given up because the end of a run does not fit its machine word; then there is a
section that is not placed, and a period from which on its run would be so long. -/
theorem Reachable.placing_relocates_nothing (h : Reachable book s) (temperature : Float)
    (rng : G) {kind : MoveKind} (hkind : kind ≠ .swapping) :
    (∃ step, kind.move book s temperature rng = .ok step ∧
      step.state.PlacesBatch s temperature ∧
      (kind = .greedy → s.starts ⊆ step.state.starts) ∧
      (kind = .destructiveByRoom → ∀ a ∈ step.state.newStarts s,
        a.periodId ∈ p.roomPeriods a.roomId ∧
          s.occurringAt? (p.slotOf a.periodId) a.roomId = none)) ∨
    kind.move book s temperature rng = .error .overflow ∧
      ∃ id ∈ s.unscheduled, ∃ q ∈ p.periods, wordSize 32 ≤ q.index + (p.sectionOf id).length := by
  have hs := (Schedule.keptByEdits_isKeyed _).reachable .empty h
  have hmeets : Meets (fun step => step.state.PlacesBatch s temperature ∧
      (kind = .greedy → s.starts ⊆ step.state.starts) ∧
      (kind = .destructiveByRoom → ∀ a ∈ step.state.newStarts s,
        a.periodId ∈ p.roomPeriods a.roomId ∧
          s.occurringAt? (p.slotOf a.periodId) a.roomId = none))
      (fun f => ∃ id ∈ s.unscheduled, p.Overruns id f) (kind.move book s temperature rng) := by
    cases kind with
    | greedy =>
      exact (Move.meets_placeValid hs temperature rng book).imp fun step ⟨hbatch, hsub⟩ =>
        ⟨hbatch, fun _ => hsub, nofun⟩
    | destructive =>
      exact (Move.meets_placeForced hs temperature rng book).imp fun step hbatch =>
        ⟨hbatch, nofun, nofun⟩
    | destructiveByRoom =>
      exact (Move.meets_fillRooms_free hs temperature rng book).imp fun step ⟨hbatch, hfree⟩ =>
        ⟨hbatch, nofun, fun _ a ha => Move.of_mem_freePlaces (hfree a ha)⟩
    | swapping => exact absurd rfl hkind
  rcases hmeets.exists_or with hstep | ⟨f, hf, id, hid, rfl, hlong⟩
  · exact .inl hstep
  · exact .inr ⟨hf, id, hid, hlong⟩

/-- Two sections are placed, and the one that was placed before is gone.  Without force it stays,
whatever the temperature. -/
theorem placing_relocates_nothing_held :
    let book := (Contested.config [.duplicateSections, .roomConflict, .teacherConflict]).rulebook
    (∃ step, MoveKind.destructive.move book Contested.held 1.0 (Generator.ofSeed 0) = .ok step ∧
      step.state.scheduled = [⟨2⟩, ⟨3⟩] ∧ step.state.PlacesBatch Contested.held 1.0) ∧
    ∀ temperature (rng : Generator), ∃ step,
      MoveKind.greedy.move book Contested.held temperature rng = .ok step ∧
        Contested.pinnedStart ∈ step.state.starts := by
  intro book
  -- nothing is so long that the end of its run could not be told
  have hshort : ¬ ∃ id ∈ Contested.held.unscheduled, ∃ q ∈ Contested.program.periods,
      wordSize 32 ≤ q.index + (Contested.program.sectionOf id).length := by
    decide +kernel
  constructor
  · rcases Reachable.placing_relocates_nothing (Contested.reachable_held _) 1.0 (Generator.ofSeed 0)
      (show MoveKind.destructive ≠ .swapping by decide) with ⟨step, hstep, hbatch, -, -⟩ | ⟨-, hlong⟩
    · have hscheduled : (MoveKind.destructive.move book Contested.held 1.0
          (Generator.ofSeed 0)).toOption.map (·.state.scheduled) = some [⟨2⟩, ⟨3⟩] := by
        decide +kernel
      rw [hstep] at hscheduled
      exact ⟨step, hstep, Option.some.inj hscheduled, hbatch⟩
    · exact absurd hlong hshort
  · intro temperature rng
    rcases Reachable.placing_relocates_nothing (Contested.reachable_held _) temperature rng
      (show MoveKind.greedy ≠ .swapping by decide) with ⟨step, hstep, -, hkept, -⟩ | ⟨-, hlong⟩
    · refine ⟨step, hstep, hkept rfl ?_⟩
      exact Contested.coherent_held.mem_starts_iff.2 (Contested.holds_held_iff.2 rfl)
    · exact absurd hlong hshort

end Timetable

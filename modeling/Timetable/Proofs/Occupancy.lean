import Timetable.Proofs.Agreement
import Timetable.Proofs.Counting
import Timetable.Proofs.Covering
import Timetable.Score.Metric

/-!
# Occupied and empty periods of a room

How much a room is used is worked out by adding up the lengths of the runs in it, without a look at
what is in session when.  That this gives a number of periods rests on two things: runs in a room
are apart, so no period is counted twice, and each of them lies within the periods in which the
room is available (`Schedule.IsAvailable`), so none is counted that is not available.  The first is
what coherence means, the second is kept by everything that can be done to a schedule if the rule of
availability is in force and nothing is exempt from it.

* `Schedule.occupied`: the periods of the runs in a room.  `Schedule.Coherent.occupied_perm` says
  that they are the available ones at which something is in session.
* `Reachable.unused_counts_empty`: unused are the pairs of a room and an available period at which
  nothing is in session.
* `Reachable.utilization_exact_iff`: the share of a room that is used says how many of the periods
  in which it is available are occupied exactly if the room lists none of them twice.
-/

set_option autoImplicit false

namespace Timetable

variable {p : Program} {book : Rulebook} {s : Schedule p} {minimum maximum : Float}

/-! ## Runs within availability -/

namespace Schedule

/-- In every period of every run the room is available. -/
def IsAvailable (s : Schedule p) : Prop :=
  ∀ a ∈ s.starts, ∀ m ∈ a.presents p, m.periodId ∈ p.roomPeriods a.roomId

end Schedule

/-- A start that may be placed keeps to the periods in which its room is available, unless it is
pinned. -/
theorem Rulebook.isAvailable_of_isValid (hpins : book.pins = .none)
    (hlocal : .localConflict minimum maximum ∈ book.rules) {c : Start}
    (hv : (book.validate s c).isValid) :
    ∀ m ∈ c.presents p, m.periodId ∈ p.roomPeriods c.roomId := by
  have hpinned : ¬ book.pins.holds c := by
    rw [hpins]
    exact Bool.false_ne_true
  have hpermits := (isValid_validate_iff.1 hv).1.resolve_left hpinned _ hlocal
  exact fun m hm => ((Rule.permits_localConflict_iff.1 hpermits).2 m hm).2

/-- **Edits keep to the periods in which rooms are available.** -/
theorem Edits.isAvailable (hdup : .duplicateSections ∈ book.rules)
    (hroom : .roomConflict ∈ book.rules) (hpins : book.pins = .none)
    (hlocal : .localConflict minimum maximum ∈ book.rules) (h : Edits book (.empty p) s) :
    s.IsAvailable := by
  refine Edits.invariant hdup hroom
    (P := fun l => ∀ a ∈ l, ∀ m ∈ a.presents p, m.periodId ∈ p.roomPeriods a.roomId)
    (fun a ha => absurd ha List.not_mem_nil) (fun hlm hm a ha => hm a (hlm.subset ha))
    (fun _ _ _ hv ih => ?_) h
  exact List.forall_mem_cons.2 ⟨Rulebook.isAvailable_of_isValid hpins hlocal hv, ih⟩

/-! ## The periods of a run -/

theorem Program.mem_periodIds_of_lists {q : PeriodId} (h : p.record.Lists q) : q ∈ p.periodIds := by
  rw [ProgramRecord.Lists, idsOf_period] at h
  obtain ⟨period, hperiod, hid⟩ := List.mem_map.1 h
  exact ⟨period, hperiod, Id.ext hid⟩

/-- The periods of a run are those whose slots it covers. -/
theorem Start.IsOf.mem_periodIds_iff {a : Start} (ha : a.IsOf p) {q : PeriodId} :
    q ∈ (a.presents p).map (·.periodId) ↔ q ∈ p.periodIds ∧ a.covers (p.slotOf q) := by
  rw [List.mem_map]
  constructor
  · rintro ⟨m, hm, rfl⟩
    obtain ⟨hq, hslot⟩ := p.periodAt?_eq_some_iff.1 (ha.presentAt?_slot hm).1
    exact ⟨hq, hslot ▸ Start.exists_mem_presents_iff.1 ⟨m, hm, rfl⟩⟩
  · rintro ⟨hq, hcovers⟩
    obtain ⟨m, hm, hslot⟩ := (Start.exists_mem_presents_iff (p := p)).2 hcovers
    refine ⟨m, hm, Option.some.inj ?_⟩
    rw [← (ha.presentAt?_slot hm).1, hslot]
    exact p.periodAt?_eq_some_iff.2 ⟨hq, rfl⟩

/-- No period comes twice in a run. -/
theorem Start.IsOf.nodup_periodIds {a : Start} (ha : a.IsOf p) :
    ((a.presents p).map (·.periodId)).Nodup := by
  have hslots := List.pairwise_map.1 (Start.pairwise_slot_presents p a)
  refine List.pairwise_map.2 (hslots.imp_of_mem fun {m n} hm hn hlt heq => ?_)
  have hslot : m.slot = n.slot := by
    rw [← (p.periodAt?_eq_some_iff.1 (ha.presentAt?_slot hm).1).2, heq,
      (p.periodAt?_eq_some_iff.1 (ha.presentAt?_slot hn).1).2]
  rw [hslot, Slot.precedes_iff] at hlt
  omega

/-! ## The periods of the runs in a room -/

namespace Schedule

/-- The periods of the runs in a room, run by run. -/
def occupied (s : Schedule p) (room : RoomId) : List PeriodId :=
  (s.startsIn room).flatMap fun a => (a.presents p).map (·.periodId)

/-- The available periods of a room at which something is in session. -/
def busyPeriods (s : Schedule p) (room : RoomId) : List PeriodId :=
  (p.roomPeriods room).filter fun q => (s.occurringAt? (p.slotOf q) room).isSome

/-- The available periods of a room at which nothing is in session. -/
def emptyPeriods (s : Schedule p) (room : RoomId) : List PeriodId :=
  (p.roomPeriods room).filter fun q => (s.occurringAt? (p.slotOf q) room).isNone

theorem length_occupied (s : Schedule p) (room : RoomId) :
    (s.occupied room).length = (s.usage room).1 := by
  rw [occupied, usage]
  induction s.startsIn room with
  | nil => rfl
  | cons a l ih =>
    rw [List.flatMap_cons, List.length_append, ih, List.length_map, Start.length_presents]
    rfl

theorem length_busyPeriods_add (s : Schedule p) (room : RoomId) :
    (s.busyPeriods room).length + (s.emptyPeriods room).length = (p.roomPeriods room).length := by
  rw [busyPeriods, emptyPeriods, ← List.length_append]
  simp only [← Option.not_isSome]
  exact (List.filter_append_perm _ _).length_eq

namespace Coherent

variable (h : s.Coherent) {room : RoomId} {q : PeriodId}

include h

/-- **The periods of the runs in a room are those at which something is in session.** -/
theorem mem_occupied_iff :
    q ∈ s.occupied room ↔ q ∈ p.periodIds ∧ (s.occurringAt? (p.slotOf q) room).isSome := by
  simp only [occupied, List.mem_flatMap, h.mem_startsIn_iff]
  constructor
  · rintro ⟨a, ⟨ha, rfl⟩, hq⟩
    have hof := h.isOf_of_holds ha
    obtain ⟨hlisted, hcovers⟩ := hof.mem_periodIds_iff.1 hq
    obtain ⟨m, hm⟩ := hof.exists_presentAt? hcovers
    obtain ⟨rfl, -⟩ := Start.of_presentAt? hm
    rw [h.occurringAt?_eq_some_iff.2 ⟨ha, rfl, hm⟩]
    exact ⟨hlisted, rfl⟩
  · rintro ⟨hq, hsome⟩
    obtain ⟨m, hm⟩ := Option.isSome_iff_exists.1 hsome
    obtain ⟨ha, hroom, hm⟩ := h.occurringAt?_eq_some_iff.1 hm
    exact ⟨m.start, ⟨ha, hroom⟩,
      (h.isOf_of_holds ha).mem_periodIds_iff.2 ⟨hq, (Start.of_presentAt? hm).2⟩⟩

/-- **No period is counted twice.** -/
theorem nodup_occupied (room : RoomId) : (s.occupied room).Nodup := by
  have hof : ∀ {a}, a ∈ s.startsIn room → a.IsOf p := fun ha =>
    h.isOf_of_holds (h.mem_startsIn_iff.1 ha).1
  refine List.nodup_flatMap.2 ⟨fun a ha => (hof ha).nodup_periodIds, ?_⟩
  refine (h.nodup_startsIn room).imp_of_mem fun {a b} ha hb hne q hqa hqb => hne ?_
  obtain ⟨hholds, hroom⟩ := h.mem_startsIn_iff.1 ha
  obtain ⟨hholds', hroom'⟩ := h.mem_startsIn_iff.1 hb
  refine h.apart hholds hholds' (hroom.trans hroom'.symm) (((hof ha).overlaps_iff (hof hb)).2 ?_)
  exact ⟨p.slotOf q, ((hof ha).mem_periodIds_iff.1 hqa).2, ((hof hb).mem_periodIds_iff.1 hqb).2⟩

/-- **The periods of the runs in a room are the available ones at which something is in
session.** -/
theorem occupied_perm (havailable : s.IsAvailable) {r : Room} (hr : r ∈ p.rooms) :
    (s.occupied r.id).Perm (s.busyPeriods r.id) := by
  have hbusy : (s.busyPeriods r.id).Nodup := (nodup_distinct _).filter _
  refine (List.perm_ext_iff_of_nodup (h.nodup_occupied _) hbusy).2 fun q => ?_
  rw [busyPeriods, List.mem_filter, h.mem_occupied_iff]
  refine and_congr_left fun hsome => ⟨fun hq => ?_, fun hq => ?_⟩
  · obtain ⟨a, ha, hqa⟩ := List.mem_flatMap.1 (h.mem_occupied_iff.2 ⟨hq, hsome⟩)
    obtain ⟨hholds, hroom⟩ := h.mem_startsIn_iff.1 ha
    obtain ⟨m, hm, rfl⟩ := List.mem_map.1 hqa
    exact hroom ▸ havailable a (h.mem_starts_iff.2 hholds) m hm
  · rw [Program.roomPeriods, mem_distinct, p.room_eq hr] at hq
    exact p.mem_periodIds_of_lists (Program.lists_roomPeriodId hr hq)

/-- A room is used for as many periods as something is in session in it. -/
theorem usage_eq (havailable : s.IsAvailable) {r : Room} (hr : r ∈ p.rooms) :
    (s.usage r.id).1 = (s.busyPeriods r.id).length := by
  rw [← length_occupied, (h.occupied_perm havailable hr).length_eq]

/-- A room is unused for as many available periods as nothing is in session in it. -/
theorem unusedPeriods_eq (havailable : s.IsAvailable) {r : Room} (hr : r ∈ p.rooms) :
    s.unusedPeriods r.id = (s.emptyPeriods r.id).length := by
  rw [unusedPeriods, h.usage_eq havailable hr, ← length_busyPeriods_add, Nat.add_sub_cancel_left]

end Coherent

/-! ## Places that are empty -/

/-- The pairs of a room and a period in which it is available and nothing is in session. -/
def emptyPlaces (s : Schedule p) : Set (RoomId × PeriodId) :=
  {e | (∃ r ∈ p.rooms, r.id = e.1 ∧ e.2 ∈ r.periodIds) ∧
    s.occurringAt? (p.slotOf e.2) e.1 = none}

theorem mem_emptyPeriods_iff {r : Room} (hr : r ∈ p.rooms) {q : PeriodId} :
    q ∈ s.emptyPeriods r.id ↔ q ∈ r.periodIds ∧ s.occurringAt? (p.slotOf q) r.id = none := by
  rw [emptyPeriods, List.mem_filter, Program.roomPeriods, mem_distinct, p.room_eq hr,
    Option.isNone_iff_eq_none]

theorem emptyPlaces_eq (s : Schedule p) : s.emptyPlaces =
    {e | e.1 ∈ p.rooms.map (·.id) ∧ e.2 ∈ {q | q ∈ s.emptyPeriods e.1}} := by
  ext ⟨room, q⟩
  constructor
  · rintro ⟨⟨r, hr, rfl, hq⟩, hnone⟩
    exact ⟨List.mem_map_of_mem hr, (mem_emptyPeriods_iff hr).2 ⟨hq, hnone⟩⟩
  · rintro ⟨hroom, hq⟩
    obtain ⟨r, hr, rfl⟩ := List.mem_map.1 hroom
    obtain ⟨hq, hnone⟩ := (mem_emptyPeriods_iff hr).1 hq
    exact ⟨⟨r, hr, rfl, hq⟩, hnone⟩

/-- **The unused periods of all rooms are the places that are empty.** -/
theorem Coherent.encard_emptyPlaces (h : s.Coherent) (havailable : s.IsAvailable) :
    s.emptyPlaces.encard = s.unusedRoomPeriods := by
  have hrooms : (p.rooms.map (·.id)).Nodup := p.nodup_ids (f := Room.id) rfl
  have hcount : ∀ room ∈ p.rooms.map (·.id),
      {q | q ∈ s.emptyPeriods room}.encard = s.unusedPeriods room := by
    intro room hroom
    obtain ⟨r, hr, rfl⟩ := List.mem_map.1 hroom
    have hnodup : (s.emptyPeriods r.id).Nodup := (nodup_distinct _).filter _
    rw [encard_mem hnodup, h.unusedPeriods_eq havailable hr]
  rw [emptyPlaces_eq, encard_pairs hrooms hcount, List.map_map]
  rfl

/-! ## The share of a room that is used -/

/-- The two numbers of which the share of a room is the quotient are those of the occupied and of
all available periods, as are those by which its unused periods are told. -/
structure UtilizationExact (s : Schedule p) (room : RoomId) : Prop where
  used : (s.usage room).1 = (s.busyPeriods room).length
  available : (s.usage room).2 = (p.roomPeriods room).length
  /-- What is left of the share are the unused periods. -/
  used_add_unused : (s.usage room).1 + s.unusedPeriods room = (s.usage room).2
  /-- The share is the whole exactly if something is in session in every available period. -/
  used_eq_iff : (s.usage room).1 = (s.usage room).2 ↔
    ∀ q ∈ p.roomPeriods room, (s.occurringAt? (p.slotOf q) room).isSome

theorem length_busyPeriods_eq_iff {room : RoomId} :
    (s.busyPeriods room).length = (p.roomPeriods room).length ↔
      ∀ q ∈ p.roomPeriods room, (s.occurringAt? (p.slotOf q) room).isSome :=
  List.length_filter_eq_length_iff

/-- A room that is available at some period has a share that is used, and it is told if the periods
in use fit a machine word. -/
theorem utilization?_eq {r : Room} (hr : r ∈ p.rooms) (hsome : r.periodIds ≠ []) :
    s.utilization? r.id =
      if (s.usage r.id).1 < wordSize 32 then
        .ok (some ((s.usage r.id).1.toFloat / (s.usage r.id).2.toFloat))
      else .error .overflow := by
  have hne : (p.room r.id).periodIds.length ≠ 0 := by
    rw [p.room_eq hr]
    exact fun h => hsome (List.length_eq_zero_iff.1 h)
  have htotal : totalWithin 32 ((s.startsIn r.id).map (·.length)) =
      if (s.usage r.id).1 < wordSize 32 then .ok (s.usage r.id).1 else .error .overflow :=
    totalWithin_eq _ _
  simp only [utilization?, if_neg hne, htotal]
  by_cases hfits : (s.usage r.id).1 < wordSize 32
  · rw [if_pos hfits, if_pos hfits]
    rfl
  · rw [if_neg hfits, if_neg hfits]
    rfl

/-- **The share of a room is that of its available periods exactly if it lists none of them
twice.** -/
theorem Coherent.utilizationExact_iff (h : s.Coherent) (havailable : s.IsAvailable) {r : Room}
    (hr : r ∈ p.rooms) : s.UtilizationExact r.id ↔ r.periodIds.Nodup := by
  have hlisted : (s.usage r.id).2 = (p.roomPeriods r.id).length ↔ r.periodIds.Nodup := by
    rw [usage, Program.roomPeriods, p.room_eq hr, eq_comm]
    exact length_distinct_eq_iff
  refine ⟨fun hexact => hlisted.1 hexact.available, fun hnodup => ?_⟩
  have hused := h.usage_eq havailable hr
  have hall := hlisted.2 hnodup
  refine ⟨hused, hall, ?_, ?_⟩
  · rw [hused, h.unusedPeriods_eq havailable hr, length_busyPeriods_add, hall]
  · rw [hused, hall, length_busyPeriods_eq_iff]

end Schedule

section Reached

variable (hnames : book.NamesPlaced p) (hpins : book.pins = .none)
  (hdup : .duplicateSections ∈ book.rules) (hroom : .roomConflict ∈ book.rules)
  (hlocal : .localConflict minimum maximum ∈ book.rules) (h : Reachable book s)

include hnames hpins hdup hroom hlocal h

/-- **Unused are the pairs of a room and a period in which the room is available and nothing is in
session**, and no room is used for more periods than it is available. -/
theorem Reachable.unused_counts_empty : s.emptyPlaces.encard = s.unusedRoomPeriods ∧
    ∀ r ∈ p.rooms, (s.usage r.id).1 ≤ (p.roomPeriods r.id).length := by
  have hedits := h.edits_of_namesPlaced hdup hroom hnames
  have hs := hedits.coherent hdup hroom .empty
  have havailable := hedits.isAvailable hdup hroom hpins hlocal
  refine ⟨hs.encard_emptyPlaces havailable, fun r hr => ?_⟩
  rw [hs.usage_eq havailable hr]
  exact List.length_filter_le _ _

/-- **The share of a room that is used is that of the available periods that are occupied exactly if
the room lists none of them twice.**  The number of occupied periods is right in any case, and the
share is told unless there are too many of them for a machine word. -/
theorem Reachable.utilization_exact_iff {r : Room} (hr : r ∈ p.rooms) (hsome : r.periodIds ≠ []) :
    (s.utilization? r.id =
      if (s.usage r.id).1 < wordSize 32 then
        .ok (some ((s.usage r.id).1.toFloat / (s.usage r.id).2.toFloat))
      else .error .overflow) ∧
      (s.usage r.id).1 = (s.busyPeriods r.id).length ∧
      (s.UtilizationExact r.id ↔ r.periodIds.Nodup) := by
  have hedits := h.edits_of_namesPlaced hdup hroom hnames
  have hs := hedits.coherent hdup hroom .empty
  have havailable := hedits.isAvailable hdup hroom hpins hlocal
  exact ⟨Schedule.utilization?_eq hr hsome, hs.usage_eq havailable hr,
    hs.utilizationExact_iff havailable hr⟩

end Reached

/-! ## A loft and a hall -/

namespace Loft

/-- A hall that is available all day, and a loft in the morning only, which is noted twice. -/
def record : ProgramRecord where
  teachers := [{ id := ⟨1⟩, periodIds := [⟨1⟩, ⟨2⟩] }]
  rooms := [{ id := ⟨1⟩, capacity := 10, periodIds := [⟨1⟩, ⟨2⟩] },
    { id := ⟨2⟩, capacity := 10, periodIds := [⟨1⟩, ⟨1⟩] }]
  courses := [{ id := ⟨1⟩, estimatedSize := 5, maxSize := 5, teacherIds := [⟨1⟩] }]
  sections := [{ id := ⟨1⟩, courseId := ⟨1⟩, length := 1 }]
  blocks := [{ id := ⟨1⟩, periods := [{ id := ⟨1⟩ }, { id := ⟨2⟩ }] }]

def program : Program := ⟨record, by rfl⟩

/-- The section in the loft in the morning. -/
def rehearsal : Start := ⟨⟨⟨1⟩, 0⟩, ⟨2⟩, ⟨1⟩, ⟨1⟩, 1⟩

theorem isOf_rehearsal : rehearsal.IsOf program := by rfl

def config : RuleConfig := { rules := [.duplicateSections, .roomConflict, .localConflict] }

def held : Schedule program := (config.rulebook.assign (.empty program) rehearsal).2

theorem reachable_held : Reachable config.rulebook held :=
  Reaches.refl.assign trivial isOf_rehearsal

theorem namesPlaced_rulebook : config.rulebook.NamesPlaced program :=
  config.isBuiltIn_rulebook.namesPlaced

theorem localConflict_mem : .localConflict 1.0 (1.0 / 0.0) ∈ config.rulebook.rules :=
  List.mem_cons_of_mem _ (List.mem_cons_of_mem _ List.mem_cons_self)

end Loft

open Loft in
theorem unused_counts_empty_loft : held.starts = [rehearsal] ∧ held.unusedRoomPeriods = 2 ∧
    held.emptyPlaces.encard = 2 ∧ (held.usage ⟨2⟩).1 ≤ (program.roomPeriods ⟨2⟩).length := by
  obtain ⟨hcount, hle⟩ := Reachable.unused_counts_empty namesPlaced_rulebook rfl List.mem_cons_self
    (List.mem_cons_of_mem _ List.mem_cons_self) localConflict_mem reachable_held
  have hunused : held.unusedRoomPeriods = 2 := by decide +kernel
  rw [hunused] at hcount
  exact ⟨by decide +kernel, hunused, hcount, hle _ (List.mem_cons_of_mem _ List.mem_cons_self)⟩

open Loft in
theorem utilization_exact_loft : held.UtilizationExact ⟨1⟩ ∧ ¬ held.UtilizationExact ⟨2⟩ := by
  have hexact := fun {r} => Reachable.utilization_exact_iff (r := r) namesPlaced_rulebook rfl
    List.mem_cons_self (List.mem_cons_of_mem _ List.mem_cons_self) localConflict_mem reachable_held
  refine ⟨(hexact List.mem_cons_self (by decide)).2.2.2 (by decide), fun hloft => ?_⟩
  exact absurd ((hexact (List.mem_cons_of_mem _ List.mem_cons_self) (by decide)).2.2.1 hloft)
    (by decide)

open Loft in
/-- The loft is fully used, but the share that is said to be used is one half. -/
theorem not_utilizationExact_loft : Reachable config.rulebook held ∧
    (∀ q ∈ program.roomPeriods ⟨2⟩, (held.occurringAt? (program.slotOf q) ⟨2⟩).isSome) ∧
    held.unusedPeriods ⟨2⟩ = 0 ∧ held.usage ⟨2⟩ = (1, 2) ∧ ¬ held.UtilizationExact ⟨2⟩ := by
  have husage : held.usage ⟨2⟩ = (1, 2) := by decide +kernel
  refine ⟨reachable_held, by decide +kernel, by decide +kernel, husage, fun hexact => ?_⟩
  have hall := hexact.used_eq_iff.2 (by decide +kernel)
  rw [husage] at hall
  exact absurd hall (by decide)

end Timetable

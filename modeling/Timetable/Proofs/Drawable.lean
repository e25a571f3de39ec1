import Mathlib.Data.List.Nodup
import Timetable.Config
import Timetable.Proofs.Batch
import Timetable.Proofs.Counting
import Timetable.Proofs.Covering
import Timetable.Proofs.Draws
import Timetable.Proofs.Ratio
import Timetable.Proofs.Reading
import Timetable.Proofs.Rulebook

/-!
# What can be drawn is what may be accepted

Moves draw the starts they try from the rooms and the periods that are compatible with a section.
Which these are is found without asking the rules, so it has to be seen that no start is left out
that the rules would accept.

* `Rulebook.mem_compatibleRooms`: the rules of size and of properties only accept compatible rooms.
* `Rulebook.exists_compatible_periodAt?`: the former only accepts compatible periods.
* `exists_randomStart_eq`: each pair of a compatible room and a compatible period is drawn.
* `Rulebook.drawn_of_isLocallyValid`: so a start with which no rule finds a fault may be drawn.
-/

set_option autoImplicit false

namespace Timetable

variable {p : Program} {book : Rulebook} {s : Schedule p} {c : Start} {minimum maximum : Float}

/-! ## Compatible rooms and periods -/

namespace Program

theorem isCompatible_iff {id : SectionId} {room : RoomId} : p.isCompatible id room ↔
    (p.courseOf id).estimatedSize ≤ (p.room room).capacity ∧
      (p.courseOf id).propertyIds ⊆ (p.room room).propertyIds ∧
        p.bindingProperties room ⊆ (p.courseOf id).propertyIds := by
  simp only [isCompatible, Bool.and_eq_true, decide_eq_true_eq, List.all_eq_true,
    List.contains_iff_mem, List.subset_def, and_assoc]

theorem mem_compatibleRooms_iff {id : SectionId} {room : RoomId} : room ∈ p.compatibleRooms id ↔
    (∃ x, p.room? room = some x) ∧ p.isCompatible id room := by
  rw [compatibleRooms, List.mem_filter, List.mem_map]
  refine and_congr_left fun _ => exists_congr fun x => ?_
  rw [p.room?_eq_some_iff]

/-- No course expects more students than it may have. -/
theorem estimatedSize_courseOf_le (id : SectionId) :
    (p.courseOf id).estimatedSize ≤ (p.courseOf id).maxSize := by
  rw [courseOf, course]
  cases h : p.course? (p.sectionOf id).courseId with
  | none => exact Nat.le_refl _
  | some x => exact p.wellFormed.estimatedSize_le x (p.course?_eq_some_iff.1 h).1

end Program

/-! ## What the rules accept -/

namespace Rulebook

/-- **The rules of size and of properties only accept compatible rooms.** -/
theorem mem_compatibleRooms (hwords : p.record.FitsWords) (hmin : 1.0 ≤ minimum)
    (hc : c.IsOf p) (hsize : (Rule.localConflict minimum maximum).Permits s c)
    (hprops : Rule.roomProperties.Permits s c) : c.roomId ∈ p.compatibleRooms c.sectionId := by
  obtain ⟨period, room, held, -, hroom, -, -, -, -⟩ := Start.make_eq_ok_iff.1 hc
  obtain ⟨⟨hratio, -⟩, -⟩ := Rule.permits_localConflict_iff.1 hsize
  obtain ⟨hrequired, hbinding⟩ := Rule.permits_roomProperties_iff.1 hprops
  have hlt : (p.courseOf c.sectionId).maxSize < wordSize 32 := by
    rw [Program.courseOf, Program.course]
    cases h : p.course? (p.sectionOf c.sectionId).courseId with
    | none => decide
    | some x => exact hwords.maxSize_lt x (p.course?_eq_some_iff.1 h).1
  have hseats := le_of_one_le_ratio hlt (Binary64.one_le_trans hmin hratio)
  exact Program.mem_compatibleRooms_iff.2 ⟨⟨room, hroom⟩, Program.isCompatible_iff.2
    ⟨Nat.le_trans (Program.estimatedSize_courseOf_le _) hseats, hrequired, hbinding⟩⟩

/-- **The rule of size and availability only accepts compatible periods.** -/
theorem exists_compatible_periodAt? (hc : c.IsOf p)
    (hsize : (Rule.localConflict minimum maximum).Permits s c) {slot : Slot}
    (hslot : c.covers slot) :
    ∃ q ∈ p.compatiblePeriods c.sectionId, p.periodAt? slot = some q := by
  obtain ⟨m, hm, rfl⟩ := Start.exists_mem_presents_iff.2 hslot
  obtain ⟨-, havailable⟩ := Rule.permits_localConflict_iff.1 hsize
  exact ⟨m.periodId, (havailable m hm).1, (hc.presentAt?_slot hm).1⟩

end Rulebook

/-! ## What is drawn -/

namespace ProgramRecord.FitsWords

variable (hwords : p.record.FitsWords) (id : SectionId)

include hwords

theorem length_compatibleRooms_le : (p.compatibleRooms id).length ≤ wordSize 32 := by
  refine Id.length_le_of_nodup ((p.nodup_ids (f := Room.id) rfl).filter _) fun room hroom => ?_
  obtain ⟨x, hx, rfl⟩ := List.mem_map.1 (List.mem_filter.1 hroom).1
  exact hwords.room_lt x hx

theorem length_compatiblePeriods_le : (p.compatiblePeriods id).length ≤ wordSize 32 := by
  refine Id.length_le_of_nodup ((nodup_distinct _).filter _) fun q hq => ?_
  have hq := mem_distinct.1 (List.mem_filter.1 hq).1
  rw [p.map_id_periods] at hq
  obtain ⟨x, hx, rfl⟩ := List.mem_map.1 hq
  obtain ⟨b, hb, hx⟩ := List.mem_flatMap.1 hx
  exact hwords.period_lt b hb x hx

end ProgramRecord.FitsWords

/-- **Each start in a compatible room from a compatible period on is drawn.** -/
theorem exists_randomStart_eq (hwords : p.record.FitsWords) (hc : c.IsOf p)
    (hroom : c.roomId ∈ p.compatibleRooms c.sectionId)
    (hperiod : c.periodId ∈ p.compatiblePeriods c.sectionId) :
    ∃ rng next : Generator, rng ≠ ⟨0, 0, 0, 0⟩ ∧
      randomStart p c.sectionId rng = .ok (some c, next) := by
  obtain ⟨i, hi, hroomAt⟩ := List.mem_iff_getElem.1 hroom
  obtain ⟨j, hj, hperiodAt⟩ := List.mem_iff_getElem.1 hperiod
  obtain ⟨rng, hne, hfirst, hsecond⟩ : ∃ rng : Generator, rng ≠ ⟨0, 0, 0, 0⟩ ∧
      (RandomSource.below rng (p.compatibleRooms c.sectionId).length).1 = i ∧
      (RandomSource.below (RandomSource.below rng (p.compatibleRooms c.sectionId).length).2
        (p.compatiblePeriods c.sectionId).length).1 = j :=
    Generator.exists_below_below hi (hwords.length_compatibleRooms_le _) hj
      (hwords.length_compatiblePeriods_le _)
  have hstart : PlacementError.toOption (Start.make p c.periodId c.roomId c.sectionId) =
      .ok (some c) := PlacementError.toOption_eq_ok_some_iff.2 hc
  refine ⟨rng, (RandomSource.below (RandomSource.below rng (p.compatibleRooms c.sectionId).length).2
    (p.compatiblePeriods c.sectionId).length).2, hne, ?_⟩
  rw [randomStart, RandomSource.choose_eq hi hfirst]
  dsimp only
  rw [RandomSource.choose_eq hj hsecond, hroomAt, hperiodAt]
  dsimp only
  rw [hstart]
  rfl

/-- **A start that is not pinned and with which no rule finds a fault is in a compatible room, all
its periods are compatible, and it may be drawn.**  There has to be a rule of size that asks for a
seat for everybody, and a rule of properties; the other rules and the schedule do not matter.  That
the numbers of the program fit machine words is true of all that are read
(`ProgramRecord.fitsWords_of_parse`). -/
theorem Rulebook.drawn_of_isLocallyValid (hwords : p.record.FitsWords)
    (hsize : .localConflict minimum maximum ∈ book.rules) (hmin : 1.0 ≤ minimum)
    (hprops : .roomProperties ∈ book.rules) (hc : c.IsOf p) (hpin : ¬ book.pins.holds c)
    (hv : (book.validate s c).isLocallyValid) :
    c.roomId ∈ p.compatibleRooms c.sectionId ∧
      (∀ slot, c.covers slot → ∃ q ∈ p.compatiblePeriods c.sectionId, p.periodAt? slot = some q) ∧
        ∃ rng next : Generator, rng ≠ ⟨0, 0, 0, 0⟩ ∧
          randomStart p c.sectionId rng = .ok (some c, next) := by
  have hpermits := (isLocallyValid_validate_iff.1 hv).resolve_left hpin
  have hroom := mem_compatibleRooms hwords hmin hc (hpermits _ hsize) (hpermits _ hprops)
  have hperiods : ∀ slot, c.covers slot →
      ∃ q ∈ p.compatiblePeriods c.sectionId, p.periodAt? slot = some q :=
    fun slot hslot => exists_compatible_periodAt? hc (hpermits _ hsize) hslot
  obtain ⟨q, hq, hfirst⟩ := hperiods c.slot hc.covers_slot
  have hperiod : q = c.periodId := Option.some.inj (hfirst.symm.trans hc.periodAt?_slot)
  exact ⟨hroom, hperiods, exists_randomStart_eq hwords hc hroom (hperiod ▸ hq)⟩

namespace Workshop

/-- A lathe that only one course may use, and a teacher who is away in the last period. -/
def record : ProgramRecord where
  teachers := [{ id := ⟨1⟩, periodIds := [⟨1⟩, ⟨2⟩] }]
  properties := [{ id := ⟨1⟩, binding := true }]
  rooms := [{ id := ⟨1⟩, capacity := 30, periodIds := [⟨1⟩, ⟨2⟩, ⟨3⟩] },
    { id := ⟨2⟩, capacity := 12, periodIds := [⟨1⟩, ⟨2⟩, ⟨3⟩], propertyIds := [⟨1⟩] }]
  courses := [
    { id := ⟨1⟩, estimatedSize := 9, maxSize := 12, teacherIds := [⟨1⟩], propertyIds := [⟨1⟩] }]
  sections := [{ id := ⟨1⟩, courseId := ⟨1⟩, length := 2 }]
  blocks := [{ id := ⟨1⟩, periods := [{ id := ⟨1⟩ }, { id := ⟨2⟩ }, { id := ⟨3⟩ }] }]

def program : Program := ⟨record, by rfl⟩

/-- The course at the lathe from the first period on. -/
def turning : Start := ⟨⟨⟨1⟩, 0⟩, ⟨2⟩, ⟨1⟩, ⟨1⟩, 2⟩

theorem isOf_turning : turning.IsOf program := by rfl

def config : RuleConfig := { rules := [.localConflict, .roomProperties] }

theorem fitsWords_record : record.FitsWords :=
  ⟨by decide, by decide, by decide⟩

end Workshop

open Workshop in
/-- The lathe is drawn for as many students as it has seats for. -/
theorem drawn_of_isLocallyValid_workshop :
    record.FitsWords ∧ 1.0 ≤ config.bounds.minimum ∧
      (config.rulebook.validate (.empty program) turning).isLocallyValid ∧
        program.compatibleRooms ⟨1⟩ = [⟨2⟩] ∧ program.compatiblePeriods ⟨1⟩ = [⟨1⟩, ⟨2⟩] ∧
          ∃ rng next : Generator, rng ≠ ⟨0, 0, 0, 0⟩ ∧
            randomStart program ⟨1⟩ rng = .ok (some turning, next) := by
  have hmin : (1.0 : Float) ≤ config.bounds.minimum := by decide +kernel
  have hv : (config.rulebook.validate (.empty program) turning).isLocallyValid := by
    decide +kernel
  obtain ⟨-, -, hdrawn⟩ := Rulebook.drawn_of_isLocallyValid fitsWords_record List.mem_cons_self hmin
    (List.mem_cons_of_mem _ List.mem_cons_self) isOf_turning (by decide) hv
  exact ⟨fitsWords_record, hmin, hv, by decide +kernel, by decide +kernel, hdrawn⟩

end Timetable

import Timetable.Placement
import Timetable.Proofs.Program

/-!
# Runs and the slots they cover

`Start.IsOf p c` says that `c` is one of the starts that `Start.make` makes for the program `p`.
Such a start runs for at least one period and lies within its block, and its slot determines its
first period, so that slot, room and section determine the start (`Start.IsOf.ext`).

The ways in which a run is looked at agree on the slots it consists of:

* `Start.exists_mem_presents_iff`: the periods that are listed are those at the covered slots.
* `Start.presentAt?_eq_some_iff` and `Start.IsOf.exists_presentAt?`: something is found at the slots
  that are covered and at no others.
* `Start.IsOf.overlaps_iff`: two runs overlap if both cover some slot.
-/

set_option autoImplicit false

namespace Timetable

/-! ## The order of slots -/

theorem Slot.ext {s t : Slot} (hblock : s.blockId = t.blockId) (hindex : s.index = t.index) :
    s = t := by
  cases s
  cases t
  cases hblock
  cases hindex
  rfl

theorem Slot.isLE_compare_iff {s t : Slot} : (compare s t).isLE ↔
    s.blockId.val < t.blockId.val ∨ s.blockId = t.blockId ∧ s.index ≤ t.index := by
  rw [Slot.compare_def, Slot.rank, Slot.rank, List.compare_cons_cons, List.compare_cons_cons,
    List.compare_nil_nil, Ordering.isLE_then_iff_or, Nat.compare_eq_lt, Nat.compare_eq_eq,
    Ordering.then_eq, Nat.isLE_compare]
  exact or_congr_right (and_congr_left' ⟨Id.ext, congrArg Id.val⟩)

/-- A slot between two slots of a block is in that block. -/
theorem Slot.blockId_eq_of_isLE {s t u : Slot} (hst : (compare s t).isLE)
    (htu : (compare t u).isLE) (h : s.blockId = u.blockId) :
    t.blockId = u.blockId ∧ s.index ≤ t.index ∧ t.index ≤ u.index := by
  have h' : s.blockId.val = u.blockId.val := congrArg Id.val h
  rcases Slot.isLE_compare_iff.1 hst with hlt | ⟨hb, hi⟩
  · rcases Slot.isLE_compare_iff.1 htu with hlt' | ⟨hb', hi'⟩
    · omega
    · rw [hb'] at hlt
      omega
  · rcases Slot.isLE_compare_iff.1 htu with hlt' | ⟨hb', hi'⟩
    · rw [hb] at h'
      omega
    · exact ⟨hb', hi, hi'⟩

namespace Start

/-! ## The starts of a program -/

/-- The start is one that can be made for the program. -/
def IsOf (p : Program) (c : Start) : Prop := Start.make p c.periodId c.roomId c.sectionId = .ok c

variable {p : Program} {a b c : Start}

/-- What a start that was made looks like. -/
theorem make_eq_ok_iff {q : PeriodId} {r : RoomId} {id : SectionId} :
    Start.make p q r id = .ok c ↔ ∃ period room held, p.period? q = some period ∧
      p.room? r = some room ∧ p.section? id = some held ∧
      period.index + held.length < wordSize 32 ∧
      period.index + held.length ≤ lowBits 32 (p.block period.blockId).length ∧
      c = ⟨period.slot, r, id, q, held.length⟩ := by
  constructor
  · intro h
    rw [make] at h
    split at h
    · cases h
    · cases h
    · cases h
    · next period room held hq hr hs =>
      rw [addWithin] at h
      split at h
      · cases h
      · next stop hadd =>
        split at hadd
        · next hlt =>
          cases hadd
          split at h
          · cases h
          · next hle =>
            cases h
            exact ⟨period, room, held, hq, hr, hs, hlt, Nat.le_of_not_gt hle, rfl⟩
        · cases hadd
  · rintro ⟨period, room, held, hq, hr, hs, hlt, hle, rfl⟩
    simp only [make, hq, hr, hs, addWithin_eq_ok hlt]
    exact if_neg (Nat.not_lt.2 hle)

/-- Making a start is given up only if the end of its run does not fit a machine word. -/
theorem make_eq_fault_iff {q : PeriodId} {r : RoomId} {id : SectionId} {f : Fault} :
    Start.make p q r id = .error (.fault f) ↔ ∃ period room held, p.period? q = some period ∧
      p.room? r = some room ∧ p.section? id = some held ∧
      wordSize 32 ≤ period.index + held.length ∧ f = .overflow := by
  constructor
  · intro h
    rw [make] at h
    split at h
    · cases h
    · cases h
    · cases h
    · next period room held hq hr hs =>
      rw [addWithin] at h
      split at h
      · next f' hadd =>
        cases h
        split at hadd
        · cases hadd
        · next hle =>
          exact ⟨period, room, held, hq, hr, hs, Nat.le_of_not_gt hle,
            (Except.error.inj hadd).symm⟩
      · split at h <;> cases h
  · rintro ⟨period, room, held, hq, hr, hs, hle, rfl⟩
    simp only [make, hq, hr, hs, addWithin_eq_error hle]

/-- What is made is a start of the program. -/
theorem isOf_of_make {q : PeriodId} {r : RoomId} {id : SectionId}
    (h : Start.make p q r id = .ok c) :
    c.IsOf p ∧ c.periodId = q ∧ c.roomId = r ∧ c.sectionId = id := by
  obtain ⟨period, room, held, -, -, -, -, -, rfl⟩ := make_eq_ok_iff.1 h
  exact ⟨h, rfl, rfl, rfl⟩

namespace IsOf

/-- Section, room and first period determine a start. -/
theorem eq_of_ids (ha : a.IsOf p) (hb : b.IsOf p) (hs : a.sectionId = b.sectionId)
    (hr : a.roomId = b.roomId) (hq : a.periodId = b.periodId) : a = b := by
  rw [IsOf, hs, hr, hq, hb] at ha
  exact (Except.ok.inj ha).symm

theorem exists_section (h : a.IsOf p) :
    ∃ s, p.section? a.sectionId = some s ∧ s.length = a.length := by
  obtain ⟨period, room, held, -, -, hs, -, -, ha⟩ := make_eq_ok_iff.1 h
  exact ⟨held, hs, by rw [ha]⟩

/-- A start of a program runs for at least one period. -/
theorem length_pos (h : a.IsOf p) : 0 < a.length := by
  obtain ⟨s, hs, hl⟩ := h.exists_section
  rw [← hl]
  exact p.length_pos (p.section?_eq_some_iff.1 hs).1

/-- A start of a program ends within its block. -/
theorem stop_le (h : a.IsOf p) : a.slot.index + a.length ≤ (p.block a.slot.blockId).length := by
  obtain ⟨period, room, held, -, -, -, -, hle, ha⟩ := make_eq_ok_iff.1 h
  rw [ha]
  exact Nat.le_trans hle (lowBits_le _ _)

/-- The first period of a run is the one at its slot. -/
theorem periodAt?_slot (h : a.IsOf p) : p.periodAt? a.slot = some a.periodId := by
  obtain ⟨period, room, held, hq, -, -, -, -, ha⟩ := make_eq_ok_iff.1 h
  have hid : period.id = a.periodId := by simpa using List.find?_some hq
  have hslot : a.slot = period.slot := by rw [ha]
  rw [hslot, p.periodAt?_slot (List.mem_of_find?_eq_some hq), hid]

/-- **Section, room and slot determine a start.** -/
theorem ext (ha : a.IsOf p) (hb : b.IsOf p) (hs : a.sectionId = b.sectionId)
    (hr : a.roomId = b.roomId) (hslot : a.slot = b.slot) : a = b := by
  refine eq_of_ids ha hb hs hr (Option.some.inj ?_)
  rw [← ha.periodAt?_slot, ← hb.periodAt?_slot, hslot]

end IsOf

/-! ## The slots of a run -/

theorem covers_iff {slot : Slot} : a.covers slot ↔
    slot.blockId = a.slot.blockId ∧ a.slot.index ≤ slot.index ∧
      slot.index < a.slot.index + a.length := by
  simp only [covers, Bool.and_eq_true, decide_eq_true_eq, and_assoc]
  exact Iff.rfl

theorem overlaps_iff_lt : a.overlaps b ↔ a.slot.blockId = b.slot.blockId ∧
    a.slot.index < b.slot.index + b.length ∧ b.slot.index < a.slot.index + a.length := by
  simp only [overlaps, Bool.and_eq_true, decide_eq_true_eq, and_assoc]
  exact Iff.rfl

/-- A run covers its first slot. -/
theorem IsOf.covers_slot (h : a.IsOf p) : a.covers a.slot := by
  have := h.length_pos
  exact covers_iff.2 ⟨rfl, Nat.le_refl _, by omega⟩

/-- **Two runs overlap if some slot is covered by both.** -/
theorem IsOf.overlaps_iff (ha : a.IsOf p) (hb : b.IsOf p) :
    a.overlaps b ↔ ∃ slot, a.covers slot ∧ b.covers slot := by
  have hla := ha.length_pos
  have hlb := hb.length_pos
  rw [overlaps_iff_lt]
  constructor
  · rintro ⟨hblock, hab, hba⟩
    -- the later one of the two first slots is common to both
    refine ⟨⟨a.slot.blockId, max a.slot.index b.slot.index⟩, covers_iff.2 ⟨rfl, ?_, ?_⟩,
      covers_iff.2 ⟨hblock, ?_, ?_⟩⟩ <;> simp only <;> omega
  · rintro ⟨slot, hsa, hsb⟩
    rw [covers_iff] at hsa hsb
    exact ⟨hsa.1.symm.trans hsb.1, by omega, by omega⟩

theorem overlaps_comm : a.overlaps b ↔ b.overlaps a := by
  rw [overlaps_iff_lt, overlaps_iff_lt, eq_comm]
  exact and_congr_right fun _ => and_comm

/-! ## The periods of a run -/

@[simp] theorem length_presents (p : Program) (c : Start) : (c.presents p).length = c.length := by
  rw [presents, List.length_map, List.length_range]

theorem start_of_mem_presents {m : Present} (h : m ∈ c.presents p) : m.start = c := by
  obtain ⟨offset, -, rfl⟩ := List.mem_map.1 h
  rfl

/-- **The periods of a run are at the slots it covers.** -/
theorem exists_mem_presents_iff {slot : Slot} :
    (∃ m ∈ c.presents p, m.slot = slot) ↔ c.covers slot := by
  rw [covers_iff]
  constructor
  · rintro ⟨m, hm, rfl⟩
    obtain ⟨offset, ho, rfl⟩ := List.mem_map.1 hm
    have := List.mem_range.1 ho
    exact ⟨rfl, Nat.le_add_right _ _, by simp only [Present.slot, Slot.index_later]; omega⟩
  · rintro ⟨hblock, hle, hlt⟩
    have ho : slot.index - c.slot.index ∈ List.range c.length := List.mem_range.2 (by omega)
    exact ⟨_, List.mem_map_of_mem ho, Slot.ext hblock.symm (Nat.add_sub_cancel' hle)⟩

/-- There is something to be found at every slot that is covered. -/
theorem IsOf.exists_presentAt? (h : a.IsOf p) {slot : Slot} (hs : a.covers slot) :
    ∃ m, a.presentAt? p slot = some m := by
  obtain ⟨hblock, hle, hlt⟩ := covers_iff.1 hs
  have hstop := h.stop_le
  have hin : slot.index < (p.block slot.blockId).length := by
    rw [hblock]
    omega
  obtain ⟨q, hq⟩ := p.exists_periodAt? hin
  exact ⟨⟨a, slot.index - a.slot.index, q⟩, by rw [presentAt?, if_pos hs, hq]; rfl⟩

/-- What is found at a slot that is covered is the period there, so many periods into the run. -/
theorem presentAt?_eq_some_iff {slot : Slot} {m : Present} : a.presentAt? p slot = some m ↔
    a.covers slot ∧ ∃ q, p.periodAt? slot = some q ∧ m = ⟨a, slot.index - a.slot.index, q⟩ := by
  rw [presentAt?]
  split
  · next hs =>
    simp only [Option.map_eq_some_iff, hs, true_and]
    exact exists_congr fun q => and_congr_right fun _ => eq_comm
  · next hs => simp [hs]

/-- What is found at a slot belongs to the run, and the slot is covered. -/
theorem of_presentAt? {slot : Slot} {m : Present} (h : a.presentAt? p slot = some m) :
    m.start = a ∧ a.covers slot := by
  obtain ⟨hs, q, -, rfl⟩ := presentAt?_eq_some_iff.1 h
  exact ⟨rfl, hs⟩

end Start

end Timetable

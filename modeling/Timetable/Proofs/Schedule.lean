import Timetable.Schedule.Basic
import Timetable.Proofs.OrderedMap
import Timetable.Proofs.Placement

/-!
# Coherent schedules

A schedule is kept in two indexes, and what is going on in a room is read off the nearest start.
Neither means anything by itself unless three things hold together, which `Schedule.Coherent` asks
for: the two indexes describe the same starts, all of them starts of the program, and no two of
them share a room at some slot.

* `IsKeyed`: every start is listed under its own section.  What is known of the list of starts
  needs no more than this, and no rule is needed to keep it so.
* `Coherent.empty`, `Coherent.add` and `Coherent.remove`: the three ways to keep a schedule coherent.
  A start that is added has to be one of a section that is not placed and has to keep clear of the
  starts in its room.
* `Coherent.of_startingBefore?` and `Coherent.exists_startingBefore?`: the nearest start is one of
  those that begin in the block up to a slot, and none of these is later.
* `Coherent.occurringAt?_eq_some_iff`: looking at the nearest start finds what is in session.  This
  is where the absence of overlaps is needed, a longer run that began earlier would be missed.
* `Coherent.mem_occurring_iff` and `Coherent.occurring_perm`: what is in session at a slot are the
  starts that cover it, each of them once.
-/

set_option autoImplicit false

namespace Timetable.Schedule

variable {p : Program}

/-! ## The two indexes -/

/-- The section that starts in a room at a slot, by the index of the room. -/
def sectionAt? (s : Schedule p) (room : RoomId) (slot : Slot) : Option SectionId :=
  (s.rooms.get? room).bind (·.get? slot)

theorem startingAt?_eq_bind (s : Schedule p) (slot : Slot) (room : RoomId) :
    s.startingAt? slot room = (s.sectionAt? room slot).bind s.startOf? :=
  (Option.bind_assoc _ _ _).symm

/-- What is at a position in the order of the sections is placed. -/
theorem mem_starts_of_nthStart? {s : Schedule p} {i : Nat} {a : Start}
    (h : s.nthStart? i = some a) : a ∈ s.starts := by
  obtain ⟨e, he, rfl⟩ := Option.map_eq_some_iff.1 h
  exact List.mem_map_of_mem (Tree.mem_of_nth? he)

/-- The start is the one its section is placed with. -/
def Holds (s : Schedule p) (a : Start) : Prop := s.startOf? a.sectionId = some a

/-- What is placed is not placed for a section that is not. -/
theorem Holds.sectionId_ne {s : Schedule p} {a : Start} (ha : s.Holds a) {id : SectionId}
    (hid : s.startOf? id = none) : a.sectionId ≠ id := by
  rintro rfl
  rw [Holds, hid] at ha
  cases ha

/-- Both indexes are ordered maps, and so is the index of every room. -/
structure IsOrdered (s : Schedule p) : Prop where
  sections : s.sections.IsOrdered
  rooms : s.rooms.IsOrdered
  index : ∀ {room index}, s.rooms.get? room = some index → index.IsOrdered

theorem startOf?_empty (id : SectionId) : (empty p).startOf? id = none := rfl

theorem rooms_empty {room : RoomId} {index : OrderedMap Slot SectionId}
    (h : (empty p).rooms.get? room = some index) : index = .empty := by
  obtain ⟨r, -, hr⟩ := List.mem_map.1 (OrderedMap.mem_of_get?_ofList h)
  exact (Prod.mk.inj hr).2.symm

theorem sectionAt?_empty (room : RoomId) (slot : Slot) : (empty p).sectionAt? room slot = none := by
  rw [sectionAt?]
  cases h : (empty p).rooms.get? room with
  | none => rfl
  | some index =>
    rw [rooms_empty h]
    rfl

theorem isOrdered_empty : (empty p).IsOrdered where
  sections := OrderedMap.isOrdered_empty
  rooms := OrderedMap.isOrdered_ofList _
  index h := rooms_empty h ▸ OrderedMap.isOrdered_empty

namespace IsOrdered

variable {s : Schedule p} (h : s.IsOrdered)

include h

theorem getD_index (room : RoomId) : ((s.rooms.get? room).getD .empty).IsOrdered := by
  cases hr : s.rooms.get? room with
  | none => exact OrderedMap.isOrdered_empty
  | some index => exact h.index hr

theorem startOf?_add (c : Start) (id : SectionId) :
    (s.add c).startOf? id = if id = c.sectionId then some c else s.startOf? id :=
  OrderedMap.get?_insert h.sections c.sectionId c id

theorem startOf?_remove (a : Start) (id : SectionId) :
    (s.remove a).startOf? id = if id = a.sectionId then none else s.startOf? id :=
  OrderedMap.get?_erase h.sections a.sectionId id

theorem sectionAt?_add (c : Start) (room : RoomId) (slot : Slot) : (s.add c).sectionAt? room slot =
    if room = c.roomId ∧ slot = c.slot then some c.sectionId else s.sectionAt? room slot := by
  simp only [sectionAt?, add, OrderedMap.get?_insert h.rooms]
  by_cases hroom : room = c.roomId
  · subst hroom
    rw [if_pos rfl, Option.bind_some, OrderedMap.get?_insert (h.getD_index _)]
    simp only [true_and]
    congr 1
    cases s.rooms.get? c.roomId <;> rfl
  · simp [hroom]

theorem sectionAt?_remove (a : Start) (room : RoomId) (slot : Slot) :
    (s.remove a).sectionAt? room slot =
      if room = a.roomId ∧ slot = a.slot then none else s.sectionAt? room slot := by
  simp only [sectionAt?, remove]
  cases ha : s.rooms.get? a.roomId with
  | none =>
    by_cases hroom : room = a.roomId
    · subst hroom
      simp [ha]
    · simp [hroom]
  | some index =>
    simp only [OrderedMap.get?_insert h.rooms]
    by_cases hroom : room = a.roomId
    · subst hroom
      simp only [if_true, Option.bind_some, true_and, ha, OrderedMap.get?_erase (h.index ha)]
    · simp [hroom]

theorem add (c : Start) : (s.add c).IsOrdered where
  sections := OrderedMap.isOrdered_insert h.sections _ _
  rooms := OrderedMap.isOrdered_insert h.rooms _ _
  index {room index} hi := by
    simp only [Schedule.add, OrderedMap.get?_insert h.rooms] at hi
    split at hi
    · cases hi
      exact OrderedMap.isOrdered_insert (h.getD_index _) _ _
    · exact h.index hi

theorem remove (a : Start) : (s.remove a).IsOrdered where
  sections := OrderedMap.isOrdered_erase h.sections _
  rooms := by
    simp only [Schedule.remove]
    split
    · exact h.rooms
    · exact OrderedMap.isOrdered_insert h.rooms _ _
  index {room index} hi := by
    simp only [Schedule.remove] at hi
    split at hi
    · exact h.index hi
    · next old ho =>
      rw [OrderedMap.get?_insert h.rooms] at hi
      split at hi
      · cases hi
        exact OrderedMap.isOrdered_erase (h.index ho) _
      · exact h.index hi

end IsOrdered

/-! ## The list of starts -/

/-- In the index of the sections every start is listed under its own section. -/
structure IsKeyed (s : Schedule p) : Prop extends IsOrdered s where
  sectionId_eq : ∀ {id a}, s.startOf? id = some a → a.sectionId = id

namespace IsKeyed

theorem empty : (empty p).IsKeyed where
  toIsOrdered := isOrdered_empty
  sectionId_eq h := by simp [startOf?_empty] at h

variable {s : Schedule p} (h : s.IsKeyed)

include h

theorem add (c : Start) : (s.add c).IsKeyed where
  toIsOrdered := h.toIsOrdered.add c
  sectionId_eq {id a} ha := by
    rw [h.startOf?_add] at ha
    split at ha
    · next hid =>
      cases ha
      exact hid.symm
    · exact h.sectionId_eq ha

theorem remove (b : Start) : (s.remove b).IsKeyed where
  toIsOrdered := h.toIsOrdered.remove b
  sectionId_eq {id a} ha := by
    rw [h.startOf?_remove] at ha
    split at ha
    · cases ha
    · exact h.sectionId_eq ha

theorem holds_of_startOf? {id : SectionId} {a : Start} (ha : s.startOf? id = some a) :
    s.Holds a := by
  rw [Holds, h.sectionId_eq ha, ha]

theorem startOf?_eq_some_iff {id : SectionId} {a : Start} :
    s.startOf? id = some a ↔ s.Holds a ∧ a.sectionId = id := by
  constructor
  · exact fun ha => ⟨h.holds_of_startOf? ha, h.sectionId_eq ha⟩
  · rintro ⟨ha, rfl⟩
    exact ha

theorem mem_starts_iff {a : Start} : a ∈ s.starts ↔ s.Holds a := by
  rw [starts, OrderedMap.mem_values_iff h.sections]
  exact ⟨fun ⟨id, ha⟩ => h.holds_of_startOf? ha, fun ha => ⟨_, ha⟩⟩

theorem map_sectionId_starts : s.starts.map (·.sectionId) = s.scheduled := by
  rw [starts, scheduled, OrderedMap.values, OrderedMap.keys, List.map_map]
  refine List.map_congr_left fun e he => ?_
  exact h.sectionId_eq ((OrderedMap.mem_toList_iff h.sections).1 he)

/-- Every section is placed once. -/
theorem nodup_sectionIds : (s.starts.map (·.sectionId)).Nodup :=
  h.map_sectionId_starts ▸ OrderedMap.nodup_keys h.sections

end IsKeyed

/-! ## Coherence -/

/-- The two indexes describe the same starts, which are starts of the program, and no two of them
overlap in a room. -/
structure Coherent (s : Schedule p) : Prop extends IsOrdered s where
  isOf : ∀ {id a}, s.startOf? id = some a → a.IsOf p ∧ a.sectionId = id
  sectionAt?_eq_some_iff : ∀ {room slot id}, s.sectionAt? room slot = some id ↔
    ∃ a, s.startOf? id = some a ∧ a.roomId = room ∧ a.slot = slot
  apart : ∀ {a b}, s.Holds a → s.Holds b → a.roomId = b.roomId → a.overlaps b → a = b

namespace Coherent

theorem empty : (empty p).Coherent where
  toIsOrdered := isOrdered_empty
  isOf h := by simp [startOf?_empty] at h
  sectionAt?_eq_some_iff := by simp [sectionAt?_empty, startOf?_empty]
  apart ha := by simp [Holds, startOf?_empty] at ha

variable {s : Schedule p} (h : s.Coherent)

include h

theorem isKeyed : s.IsKeyed where
  toIsOrdered := h.toIsOrdered
  sectionId_eq ha := (h.isOf ha).2

theorem holds_of_startOf? {id : SectionId} {a : Start} (ha : s.startOf? id = some a) :
    s.Holds a := h.isKeyed.holds_of_startOf? ha

theorem startOf?_eq_some_iff {id : SectionId} {a : Start} :
    s.startOf? id = some a ↔ s.Holds a ∧ a.sectionId = id := h.isKeyed.startOf?_eq_some_iff

theorem startOf?_eq_none {id : SectionId} (hid : ∀ a, s.Holds a → a.sectionId ≠ id) :
    s.startOf? id = none := by
  refine Option.eq_none_iff_forall_ne_some.2 fun a ha => ?_
  obtain ⟨ha, heq⟩ := h.startOf?_eq_some_iff.1 ha
  exact hid a ha heq

theorem isOf_of_holds {a : Start} (ha : s.Holds a) : a.IsOf p := (h.isOf ha).1

theorem holds_add {c a : Start} (hc : s.startOf? c.sectionId = none) :
    (s.add c).Holds a ↔ a = c ∨ s.Holds a := by
  rw [Holds, h.startOf?_add]
  split
  · next ha =>
    have hn : ¬ s.Holds a := fun hh => by simp [Holds, ha, hc] at hh
    simp [hn, eq_comm]
  · next ha => simp [Holds, show a ≠ c from fun hac => ha (congrArg _ hac)]

theorem holds_remove {a b : Start} (ha : s.Holds a) :
    (s.remove a).Holds b ↔ s.Holds b ∧ b ≠ a := by
  rw [Holds, h.startOf?_remove]
  split
  · next hb =>
    have hn : ¬ (s.Holds b ∧ b ≠ a) := fun ⟨hh, hne⟩ => by
      rw [Holds, hb, ha] at hh
      exact hne (Option.some.inj hh).symm
    simp [hn]
  · next hb => simp [Holds, show b ≠ a from fun hab => hb (congrArg _ hab)]

/-- **A start that keeps clear of the others may be added.** -/
theorem add {c : Start} (hc : c.IsOf p) (hfresh : s.startOf? c.sectionId = none)
    (hclear : ∀ a, s.Holds a → a.roomId = c.roomId → ¬ a.overlaps c) : (s.add c).Coherent where
  toIsOrdered := h.toIsOrdered.add c
  isOf {id a} ha := by
    rw [h.startOf?_add] at ha
    split at ha
    · next hid =>
      cases ha
      exact ⟨hc, hid.symm⟩
    · exact h.isOf ha
  sectionAt?_eq_some_iff {room slot id} := by
    rw [h.sectionAt?_add, h.startOf?_add]
    -- nothing else starts where the run of `c` starts
    have hfree : ∀ a, s.Holds a → ¬ (a.roomId = c.roomId ∧ a.slot = c.slot) := by
      rintro a ha ⟨hr, hs⟩
      have ha' := h.isOf_of_holds ha
      exact hclear a ha hr ((ha'.overlaps_iff hc).2 ⟨c.slot, hs ▸ ha'.covers_slot, hc.covers_slot⟩)
    split
    · next hrs =>
      obtain ⟨rfl, rfl⟩ := hrs
      split
      · next hid => simp [hid]
      · next hid =>
        refine ⟨fun hn => absurd (Option.some.inj hn).symm hid, ?_⟩
        rintro ⟨a, ha, hr, hs⟩
        exact absurd ⟨hr, hs⟩ (hfree a (h.holds_of_startOf? ha))
    · next hrs =>
      rw [h.sectionAt?_eq_some_iff]
      split
      · next hid =>
        rw [hid, hfresh]
        refine ⟨fun ⟨a, ha, _⟩ => by simp at ha, ?_⟩
        rintro ⟨a, ha, hr, hs⟩
        cases ha
        exact absurd ⟨hr.symm, hs.symm⟩ hrs
      · rfl
  apart {a b} ha hb hr hab := by
    rw [h.holds_add hfresh] at ha hb
    rcases ha with rfl | ha <;> rcases hb with rfl | hb
    · rfl
    · exact absurd (Start.overlaps_comm.1 hab) (hclear b hb hr.symm)
    · exact absurd hab (hclear a ha hr)
    · exact h.apart ha hb hr hab

/-- **A start may be taken out.** -/
theorem remove {a : Start} (ha : s.Holds a) : (s.remove a).Coherent where
  toIsOrdered := h.toIsOrdered.remove a
  isOf {id b} hb := by
    rw [h.startOf?_remove] at hb
    split at hb
    · cases hb
    · exact h.isOf hb
  sectionAt?_eq_some_iff {room slot id} := by
    rw [h.sectionAt?_remove, h.startOf?_remove]
    have hat : s.sectionAt? a.roomId a.slot = some a.sectionId :=
      h.sectionAt?_eq_some_iff.2 ⟨a, ha, rfl, rfl⟩
    split
    · next hrs =>
      obtain ⟨rfl, rfl⟩ := hrs
      split
      · simp
      · next hid =>
        refine ⟨fun hn => (by cases hn), fun hex => ?_⟩
        exact absurd (Option.some.inj ((h.sectionAt?_eq_some_iff.2 hex).symm.trans hat)) hid
    · next hrs =>
      rw [h.sectionAt?_eq_some_iff]
      split
      · next hid =>
        subst hid
        refine ⟨?_, fun ⟨b, hb, _⟩ => by cases hb⟩
        rintro ⟨b, hb, hr, hs⟩
        cases Option.some.inj (hb.symm.trans ha)
        exact absurd ⟨hr.symm, hs.symm⟩ hrs
      · rfl
  apart {b c} hb hc hr hbc := by
    rw [h.holds_remove ha] at hb hc
    exact h.apart hb.1 hc.1 hr hbc

/-- What starts in a room at a slot is the start that is placed there. -/
theorem startingAt?_eq_some_iff {slot : Slot} {room : RoomId} {a : Start} :
    s.startingAt? slot room = some a ↔ s.Holds a ∧ a.roomId = room ∧ a.slot = slot := by
  rw [startingAt?_eq_bind, Option.bind_eq_some_iff]
  constructor
  · rintro ⟨id, hid, ha⟩
    obtain ⟨b, hb, hroom, hslot⟩ := h.sectionAt?_eq_some_iff.1 hid
    cases hb.symm.trans ha
    exact ⟨h.holds_of_startOf? ha, hroom, hslot⟩
  · rintro ⟨ha, hroom, hslot⟩
    exact ⟨a.sectionId, h.sectionAt?_eq_some_iff.2 ⟨a, ha, hroom, hslot⟩, ha⟩

/-- Two starts in a room that begin at the same slot are the same. -/
theorem eq_of_slot_eq {a b : Start} (ha : s.Holds a) (hb : s.Holds b) (hroom : a.roomId = b.roomId)
    (hslot : a.slot = b.slot) : a = b :=
  Option.some.inj ((h.startingAt?_eq_some_iff.2 ⟨ha, hroom, hslot⟩).symm.trans
    (h.startingAt?_eq_some_iff.2 ⟨hb, rfl, rfl⟩))

/-- Taking out what starts somewhere leaves the others where they are. -/
theorem removeAt (slot : Slot) (room : RoomId) : (s.removeAt slot room).2.Coherent ∧
    ∀ a, (s.removeAt slot room).2.Holds a ↔ s.Holds a ∧ ¬ (a.roomId = room ∧ a.slot = slot) := by
  rw [Schedule.removeAt]
  split
  · next hnone =>
    refine ⟨h, fun a => ⟨fun ha => ⟨ha, fun hat => ?_⟩, fun ha => ha.1⟩⟩
    rw [h.startingAt?_eq_some_iff.2 ⟨ha, hat⟩] at hnone
    cases hnone
  · next b hb =>
    obtain ⟨hold, hroom, hslot⟩ := h.startingAt?_eq_some_iff.1 hb
    refine ⟨h.remove hold, fun a => ?_⟩
    rw [h.holds_remove hold]
    refine and_congr_right fun ha => not_congr ⟨fun hab => ?_, fun hat => ?_⟩
    · rw [hab]
      exact ⟨hroom, hslot⟩
    · exact h.eq_of_slot_eq ha hold (hat.1.trans hroom.symm) (hat.2.trans hslot.symm)

/-- Taking out a section leaves the others where they are. -/
theorem removeSection (id : SectionId) : (s.removeSection id).2.Coherent ∧
    ∀ a, (s.removeSection id).2.Holds a ↔ s.Holds a ∧ a.sectionId ≠ id := by
  rw [Schedule.removeSection]
  split
  · next hnone => exact ⟨h, fun a => ⟨fun ha => ⟨ha, ha.sectionId_ne hnone⟩, fun ha => ha.1⟩⟩
  · next b hb =>
    have hb' := h.holds_of_startOf? hb
    refine ⟨h.remove hb', fun a => ?_⟩
    rw [h.holds_remove hb']
    refine and_congr_right fun ha => not_congr ⟨fun hab => ?_, fun hid => ?_⟩
    · rw [hab, (h.isOf hb).2]
    · rw [Holds, hid, hb] at ha
      exact (Option.some.inj ha).symm

/-! ## The starts of a coherent schedule -/

theorem mem_starts_iff {a : Start} : a ∈ s.starts ↔ s.Holds a := h.isKeyed.mem_starts_iff

/-- What is placed is a start of the program. -/
theorem isOf_of_mem_starts {a : Start} (ha : a ∈ s.starts) : a.IsOf p :=
  h.isOf_of_holds (h.mem_starts_iff.1 ha)

theorem map_sectionId_starts : s.starts.map (·.sectionId) = s.scheduled :=
  h.isKeyed.map_sectionId_starts

theorem nodup_sectionIds : (s.starts.map (·.sectionId)).Nodup := h.isKeyed.nodup_sectionIds

theorem nodup_starts : s.starts.Nodup := h.nodup_sectionIds.of_map _

/-! ## What is in session -/

/-- What is found nearest to a slot is a start in the room, in the block of the slot and not after
it. -/
theorem of_startingBefore? {room : RoomId} {slot : Slot} {a : Start}
    (ha : s.startingBefore? room slot = some a) : s.Holds a ∧ a.roomId = room ∧
      a.slot.blockId = slot.blockId ∧ a.slot.index ≤ slot.index := by
  simp only [startingBefore?, Option.bind_eq_bind, Option.bind_eq_some_iff] at ha
  obtain ⟨index, hindex, ⟨k, id⟩, hfloor, ha⟩ := ha
  split at ha
  · next hblock =>
    obtain ⟨hk, hle⟩ := OrderedMap.get?_of_floor? (h.index hindex) hfloor
    obtain ⟨b, hb, hroom, rfl⟩ := h.sectionAt?_eq_some_iff.1
      (Option.bind_eq_some_iff.2 ⟨index, hindex, hk⟩)
    cases Option.some.inj (hb.symm.trans ha)
    obtain ⟨-, -, hindex⟩ := Slot.blockId_eq_of_isLE Std.ReflCmp.isLE_rfl hle hblock
    exact ⟨h.holds_of_startOf? hb, hroom, hblock, hindex⟩
  · cases ha

/-- **If a start in a room begins in the block of a slot and not after it, one is found that begins
no earlier.** -/
theorem exists_startingBefore? {a : Start} (ha : s.Holds a) {slot : Slot}
    (hblock : a.slot.blockId = slot.blockId) (hle : a.slot.index ≤ slot.index) :
    ∃ b, s.startingBefore? a.roomId slot = some b ∧ a.slot.index ≤ b.slot.index := by
  have hat : s.sectionAt? a.roomId a.slot = some a.sectionId :=
    h.sectionAt?_eq_some_iff.2 ⟨a, ha, rfl, rfl⟩
  obtain ⟨index, hindex, hget⟩ := Option.bind_eq_some_iff.1 hat
  have hord := h.index hindex
  obtain ⟨k, id, hfloor, hak⟩ := OrderedMap.exists_floor? hord hget
    (Slot.isLE_compare_iff.2 (.inr ⟨hblock, hle⟩))
  obtain ⟨hk, hks⟩ := OrderedMap.get?_of_floor? hord hfloor
  obtain ⟨hkb, hak, -⟩ := Slot.blockId_eq_of_isLE hak hks hblock
  obtain ⟨b, hb, -, rfl⟩ := h.sectionAt?_eq_some_iff.1
    (Option.bind_eq_some_iff.2 ⟨index, hindex, hk⟩)
  refine ⟨b, ?_, hak⟩
  simp only [startingBefore?, hindex, hfloor, Option.bind_eq_bind, Option.bind_some, if_pos hkb, hb]

/-- **The start found nearest to a slot is in session exactly if any start in the room is.** -/
theorem startingBefore?_eq_of_covers {a : Start} (ha : s.Holds a) {slot : Slot}
    (hs : a.covers slot) : s.startingBefore? a.roomId slot = some a := by
  obtain ⟨hblock, hle, hlt⟩ := Start.covers_iff.1 hs
  obtain ⟨b, hfound, hab⟩ := h.exists_startingBefore? ha hblock.symm hle
  obtain ⟨hb, hroom, hbblock, hble⟩ := h.of_startingBefore? hfound
  -- the start `b` that is found begins while `a` is in session, so it is `a`
  have hcover : a.covers b.slot := Start.covers_iff.2 ⟨hbblock.trans hblock, hab, by omega⟩
  have hbof := h.isOf_of_holds hb
  have heq : a = b := h.apart ha hb hroom.symm
    (((h.isOf_of_holds ha).overlaps_iff hbof).2 ⟨b.slot, hcover, hbof.covers_slot⟩)
  rw [hfound, heq]

/-- **What is in session in a room is the start there that covers the slot.** -/
theorem occurringAt?_eq_some_iff {room : RoomId} {slot : Slot} {m : Present} :
    s.occurringAt? slot room = some m ↔
      s.Holds m.start ∧ m.start.roomId = room ∧ m.start.presentAt? p slot = some m := by
  rw [occurringAt?]
  constructor
  · intro hm
    obtain ⟨a, ha, hm⟩ := Option.bind_eq_some_iff.1 hm
    obtain ⟨rfl, -⟩ := Start.of_presentAt? hm
    obtain ⟨hold, hroom, -⟩ := h.of_startingBefore? ha
    exact ⟨hold, hroom, hm⟩
  · rintro ⟨hold, rfl, hm⟩
    rw [h.startingBefore?_eq_of_covers hold (Start.of_presentAt? hm).2]
    exact hm

/-- **What is in session at a slot are the starts that cover it.** -/
theorem mem_occurring_iff {slot : Slot} {m : Present} :
    m ∈ s.occurring slot ↔ s.Holds m.start ∧ m.start.presentAt? p slot = some m := by
  rw [occurring, List.mem_filterMap]
  constructor
  · rintro ⟨room, -, hm⟩
    obtain ⟨hold, -, hp⟩ := h.occurringAt?_eq_some_iff.1 hm
    exact ⟨hold, hp⟩
  · rintro ⟨hold, hm⟩
    refine ⟨m.start.roomId, ?_, h.occurringAt?_eq_some_iff.2 ⟨hold, rfl, hm⟩⟩
    have hat : s.sectionAt? m.start.roomId m.start.slot = some m.start.sectionId :=
      h.sectionAt?_eq_some_iff.2 ⟨m.start, hold, rfl, rfl⟩
    obtain ⟨index, hindex, -⟩ := Option.bind_eq_some_iff.1 hat
    exact (OrderedMap.mem_keys_iff h.rooms).2 ⟨index, hindex⟩

theorem exists_mem_occurring_iff {slot : Slot} {a : Start} :
    (∃ m ∈ s.occurring slot, m.start = a) ↔ s.Holds a ∧ a.covers slot := by
  constructor
  · rintro ⟨m, hm, rfl⟩
    obtain ⟨hold, hp⟩ := h.mem_occurring_iff.1 hm
    exact ⟨hold, (Start.of_presentAt? hp).2⟩
  · rintro ⟨hold, hs⟩
    obtain ⟨m, hm⟩ := (h.isOf_of_holds hold).exists_presentAt? hs
    obtain ⟨rfl, -⟩ := Start.of_presentAt? hm
    exact ⟨m, h.mem_occurring_iff.2 ⟨hold, hm⟩, rfl⟩

/-- **Every start that covers a slot is in session once.** -/
theorem occurring_perm (slot : Slot) :
    ((s.occurring slot).map (·.start)).Perm (s.starts.filter (·.covers slot)) := by
  refine (List.perm_ext_iff_of_nodup ?_ (h.nodup_starts.filter _)).2 fun a => ?_
  · refine List.pairwise_map.2 (List.pairwise_filterMap.2 ?_)
    refine (OrderedMap.nodup_keys h.rooms).imp fun hne m hm m' hm' heq => hne ?_
    rw [← (h.occurringAt?_eq_some_iff.1 hm).2.1, ← (h.occurringAt?_eq_some_iff.1 hm').2.1, heq]
  · rw [List.mem_map, h.exists_mem_occurring_iff, List.mem_filter, h.mem_starts_iff]

/-! ## How the list of starts changes -/

theorem starts_add {c : Start} (hc : c.IsOf p) (hfresh : s.startOf? c.sectionId = none)
    (hclear : ∀ a, s.Holds a → a.roomId = c.roomId → ¬ a.overlaps c) :
    (s.add c).starts.Perm (c :: s.starts) := by
  have hadd := h.add hc hfresh hclear
  have hnot : c ∉ s.starts := fun hmem => by
    rw [h.mem_starts_iff, Holds, hfresh] at hmem
    cases hmem
  refine (List.perm_ext_iff_of_nodup hadd.nodup_starts
    (List.nodup_cons.2 ⟨hnot, h.nodup_starts⟩)).2 fun a => ?_
  rw [hadd.mem_starts_iff, h.holds_add hfresh, List.mem_cons, h.mem_starts_iff]

theorem starts_remove {a : Start} (ha : s.Holds a) :
    s.starts.Perm (a :: (s.remove a).starts) := by
  have hrem := h.remove ha
  have hnot : a ∉ (s.remove a).starts := fun hmem => by
    rw [hrem.mem_starts_iff, h.holds_remove ha] at hmem
    exact hmem.2 rfl
  refine (List.perm_ext_iff_of_nodup h.nodup_starts
    (List.nodup_cons.2 ⟨hnot, hrem.nodup_starts⟩)).2 fun b => ?_
  rw [h.mem_starts_iff, List.mem_cons, hrem.mem_starts_iff, h.holds_remove ha]
  by_cases hb : b = a
  · simp [hb, ha]
  · simp [hb]

end Coherent

end Timetable.Schedule

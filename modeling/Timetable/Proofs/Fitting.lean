import Timetable.Proofs.Counting
import Timetable.Proofs.Covering
import Timetable.Proofs.Reading

/-!
# Which runs fit

A start is made if its run ends within its block.  Where the run ends is worked out in a word of 32
bits, and a section may be as long as a word can tell, so that the end of a run that is much too
long cannot be told any more: the attempt is given up instead of being refused.

* `Program.ChecksFit` says what should come of an attempt for some identifiers, in terms of numbers
  without bounds.
* `Program.checksFit_iff`: this is what comes of it exactly if the end of the run and the length of
  the block fit words.
* `Start.IsOf.keepsToWords`: once a start is made, nothing that is worked out from it is too large.
-/

set_option autoImplicit false

namespace Timetable

variable {p : Program} {q : PeriodId} {r : RoomId} {id : SectionId}

/-! ## Working with starts in words -/

namespace Start

/-- `Start.covers`, with the end of the run kept in a word. -/
def coversInWords (a : Start) (slot : Slot) : Except Fault Bool :=
  if slot.blockId = a.slot.blockId ∧ a.slot.index ≤ slot.index then do
    let stop ← addWithin 32 a.slot.index a.length
    return slot.index < stop
  else return false

/-- `Start.overlaps`, with the ends of both runs kept in words. -/
def overlapsInWords (a b : Start) : Except Fault Bool :=
  if a.slot.blockId = b.slot.blockId then do
    let stop ← addWithin 32 b.slot.index b.length
    if a.slot.index < stop then do
      let stop ← addWithin 32 a.slot.index a.length
      return b.slot.index < stop
    else return false
  else return false

/-- `Start.lastSlot`, with the last index kept in a word, and one taken from the length only if there
is one to take. -/
def lastSlotInWords (a : Start) : Except Panic Slot := do
  let offset ← subtract! a.length 1
  (a.slot.advance offset).mapError .fault

/-- Nothing that is worked out from the beginning and the length of a run is too large for a word. -/
structure KeepsToWords (p : Program) (a : Start) : Prop where
  covers : ∀ slot, a.coversInWords slot = .ok (a.covers slot)
  overlaps : ∀ b : Start, b.IsOf p → a.overlapsInWords b = .ok (a.overlaps b) ∧
    b.overlapsInWords a = .ok (b.overlaps a)
  lastSlot : a.lastSlotInWords = .ok a.lastSlot
  /-- One gets to every slot of the run, and to the one behind it. -/
  advance : ∀ offset ≤ a.length, a.slot.advance offset = .ok (a.slot.later offset)
  advance_lastSlot : a.lastSlot.advance 1 = .ok a.stop

variable {a b : Start}

theorem coversInWords_eq (ha : a.stop.index < wordSize 32) (slot : Slot) :
    a.coversInWords slot = .ok (a.covers slot) := by
  rw [coversInWords, addWithin_eq_ok ha, ok_bind]
  split
  · next h => simp only [covers, h.1, h.2, decide_true, Bool.true_and]; rfl
  · next h =>
    have hcovers : a.covers slot = false :=
      Bool.eq_false_iff.2 fun hc => h ⟨(covers_iff.1 hc).1, (covers_iff.1 hc).2.1⟩
    rw [hcovers]
    rfl

theorem overlapsInWords_eq (ha : a.stop.index < wordSize 32) (hb : b.stop.index < wordSize 32) :
    a.overlapsInWords b = .ok (a.overlaps b) := by
  rw [overlapsInWords, addWithin_eq_ok hb, addWithin_eq_ok ha, ok_bind, ok_bind, overlaps]
  by_cases hblock : a.slot.blockId = b.slot.blockId
  · rw [if_pos hblock, decide_eq_true hblock, Bool.true_and]
    by_cases hlt : a.slot.index < b.stop.index
    · rw [decide_eq_true hlt, Bool.true_and]
      exact if_pos hlt
    · rw [decide_eq_false hlt, Bool.false_and]
      exact if_neg hlt
  · rw [if_neg hblock, decide_eq_false hblock, Bool.false_and, Bool.false_and]
    rfl

/-- **Nothing that is worked out from a start of a program is too large for a word.** -/
theorem IsOf.keepsToWords (h : a.IsOf p) : a.KeepsToWords p where
  covers slot := coversInWords_eq h.stop_lt slot
  overlaps b hb :=
    ⟨overlapsInWords_eq h.stop_lt hb.stop_lt, overlapsInWords_eq hb.stop_lt h.stop_lt⟩
  lastSlot := by
    rw [lastSlotInWords, subtract!_eq h.length_pos, ok_bind, h.advance_slot]
    rfl
  advance offset ho := by
    have hstop : a.slot.index + a.length < wordSize 32 := h.stop_lt
    rw [Slot.advance, addWithin_eq_ok (by omega)]
    rfl
  advance_lastSlot := by
    have hpos := h.length_pos
    have hend : a.lastSlot.index + 1 = a.stop.index := by
      simp only [lastSlot, stop, Slot.index_later]
      omega
    rw [Slot.advance, addWithin_eq_ok (hend ▸ h.stop_lt), hend]
    rfl

end Start

/-! ## What comes of an attempt -/

namespace Program

/-- The identifiers are those of a period, of some room, and of a section. -/
def Proposes (p : Program) (q : PeriodId) (r : RoomId) (id : SectionId) (period : Period)
    (held : Section) : Prop :=
  p.period? q = some period ∧ (∃ room, p.room? r = some room) ∧ p.section? id = some held

/-- What should come of an attempt to make a start: ends of runs and lengths of blocks are compared
as numbers without bounds. -/
structure ChecksFit (p : Program) (q : PeriodId) (r : RoomId) (id : SectionId) : Prop where
  ne_fault : ∀ f, Start.make p q r id ≠ .error (.fault f)
  unknown_iff : (∃ kind n, Start.make p q r id = .error (.unknown kind n)) ↔
    ¬ (p.record.Lists q ∧ p.record.Lists r ∧ p.record.Lists id)
  /-- What is called unknown is not listed. -/
  unknown_absent : ∀ kind n, Start.make p q r id = .error (.unknown kind n) →
    n ∉ p.record.idsOf kind
  doesNotFit_iff : Start.make p q r id = .error (.doesNotFit id q) ↔
    ∃ period held, p.Proposes q r id period held ∧
      (p.block period.blockId).length < period.index + held.length
  made_iff : ∀ c, Start.make p q r id = .ok c ↔ ∃ period held, p.Proposes q r id period held ∧
    period.index + held.length ≤ (p.block period.blockId).length ∧
      c = ⟨period.slot, r, id, q, held.length⟩
  keepsToWords : ∀ c, Start.make p q r id = .ok c → c.KeepsToWords p

/-- Something is found for the identifiers that are listed. -/
theorem isSome_find?_iff {α : Type} {kind : Kind} {l : List α} {f : α → Id kind}
    (hids : p.record.idsOf kind = l.map fun x => (f x).val) {id : Id kind} :
    (l.find? fun x => f x = id).isSome ↔ p.record.Lists id := by
  rw [ProgramRecord.Lists, hids, List.mem_map, List.find?_isSome]
  refine exists_congr fun x => and_congr_right fun _ => ?_
  rw [decide_eq_true_eq]
  exact ⟨congrArg Id.val, Id.ext⟩

theorem isSome_period?_iff : (p.period? q).isSome ↔ p.record.Lists q :=
  isSome_find?_iff (f := Period.id) idsOf_period

theorem isSome_room?_iff : (p.room? r).isSome ↔ p.record.Lists r :=
  isSome_find?_iff (f := Room.id) rfl

theorem isSome_section?_iff : (p.section? id).isSome ↔ p.record.Lists id :=
  isSome_find?_iff (f := Section.id) rfl

theorem exists_proposes_iff : (∃ period held, p.Proposes q r id period held) ↔
    p.record.Lists q ∧ p.record.Lists r ∧ p.record.Lists id := by
  rw [← isSome_period?_iff, ← isSome_room?_iff, ← isSome_section?_iff, Option.isSome_iff_exists,
    Option.isSome_iff_exists, Option.isSome_iff_exists]
  constructor
  · rintro ⟨period, held, hq, hr, hs⟩
    exact ⟨⟨period, hq⟩, hr, held, hs⟩
  · rintro ⟨⟨period, hq⟩, hr, held, hs⟩
    exact ⟨period, held, hq, hr, hs⟩

/-- An attempt fails for an identifier that is not listed, and names it. -/
theorem exists_make_eq_unknown
    (h : ¬ (p.record.Lists q ∧ p.record.Lists r ∧ p.record.Lists id)) :
    ∃ kind n, Start.make p q r id = .error (.unknown kind n) ∧ n ∉ p.record.idsOf kind := by
  rw [← isSome_period?_iff, ← isSome_room?_iff, ← isSome_section?_iff] at h
  rw [Start.make]
  cases hq : p.period? q with
  | none => exact ⟨.period, q.val, rfl, fun hl => by simpa [hq] using isSome_period?_iff.2 hl⟩
  | some period =>
    cases hr : p.room? r with
    | none => exact ⟨.room, r.val, rfl, fun hl => by simpa [hr] using isSome_room?_iff.2 hl⟩
    | some room =>
      cases hs : p.section? id with
      | none =>
        exact ⟨.courseSection, id.val, rfl, fun hl => by simpa [hs] using isSome_section?_iff.2 hl⟩
      | some held => exact absurd ⟨hq ▸ rfl, hr ▸ rfl, hs ▸ rfl⟩ h

/-- A period and a section are determined by their identifiers. -/
theorem Proposes.unique {period period' : Period} {held held' : Section}
    (h : p.Proposes q r id period held) (h' : p.Proposes q r id period' held') :
    period = period' ∧ held = held' :=
  ⟨Option.some.inj (h.1.symm.trans h'.1), Option.some.inj (h.2.2.symm.trans h'.2.2)⟩

section Make

variable {period : Period} {held : Section}

/-- An attempt is given up if the end of the run does not fit a word. -/
theorem Proposes.make_eq_fault (h : p.Proposes q r id period held)
    (hstop : wordSize 32 ≤ period.index + held.length) :
    Start.make p q r id = .error (.fault .overflow) := by
  obtain ⟨hq, ⟨room, hr⟩, hs⟩ := h
  exact Start.make_eq_fault_iff.2 ⟨period, room, held, hq, hr, hs, hstop, rfl⟩

/-- Otherwise the end of the run decides. -/
theorem Proposes.make_eq (h : p.Proposes q r id period held)
    (hstop : period.index + held.length < wordSize 32) : Start.make p q r id =
      if lowBits 32 (p.block period.blockId).length < period.index + held.length then
        .error (.doesNotFit id q)
      else .ok ⟨period.slot, r, id, q, held.length⟩ := by
  obtain ⟨hq, ⟨room, hr⟩, hs⟩ := h
  simp only [Start.make, hq, hr, hs, addWithin_eq_ok hstop]

end Make

/-- A block has no more periods than there are words. -/
theorem length_block_le (hwords : p.record.FitsWords) (id : BlockId) :
    (p.block id).length ≤ wordSize 32 := by
  rw [block]
  cases hb : p.block? id with
  | none => exact Nat.zero_le _
  | some b =>
    obtain ⟨hb, -⟩ := p.block?_eq_some_iff.1 hb
    obtain ⟨x, hx, rfl⟩ := List.mem_map.1 hb
    have hnodup : (p.record.periodRecords.map (·.id)).Nodup :=
      p.map_id_periods ▸ p.nodup_ids (f := Period.id) idsOf_period
    rw [ProgramRecord.periodRecords, List.map_flatMap, List.nodup_flatMap] at hnodup
    exact Id.length_le_of_nodup (hnodup.1 x hx) (List.forall_mem_map.2 (hwords.period_lt x hx))

/-! ## Which attempts come out as they should -/

/-- An attempt for identifiers that are not all listed fails as it should. -/
theorem checksFit_of_not_lists
    (h : ¬ (p.record.Lists q ∧ p.record.Lists r ∧ p.record.Lists id)) : p.ChecksFit q r id := by
  obtain ⟨kind, n, hmake, habsent⟩ := exists_make_eq_unknown h
  have hnone : ∀ period held, ¬ p.Proposes q r id period held := fun period held hp =>
    h (exists_proposes_iff.1 ⟨period, held, hp⟩)
  constructor
  case ne_fault => intro f hf; cases hmake.symm.trans hf
  case unknown_iff => exact iff_of_true ⟨kind, n, hmake⟩ h
  case unknown_absent => intro kind' n' h'; cases hmake.symm.trans h'; exact habsent
  case doesNotFit_iff =>
    refine iff_of_false (fun h' => ?_) fun ⟨period, held, hp, _⟩ => hnone period held hp
    cases hmake.symm.trans h'
  case made_iff =>
    refine fun c => iff_of_false (fun h' => ?_) fun ⟨period, held, hp, _⟩ => hnone period held hp
    cases hmake.symm.trans h'
  case keepsToWords => intro c hc; cases hmake.symm.trans hc

/-- An attempt comes out as it should if the end of the run and the length of the block fit words. -/
theorem Proposes.checksFit {period : Period} {held : Section} (h : p.Proposes q r id period held)
    (hstop : period.index + held.length < wordSize 32)
    (hblock : (p.block period.blockId).length < wordSize 32) : p.ChecksFit q r id := by
  have hmake := h.make_eq hstop
  rw [lowBits_eq hblock] at hmake
  have hlists := exists_proposes_iff.1 ⟨period, held, h⟩
  have hknown : ∀ kind n, Start.make p q r id ≠ .error (.unknown kind n) := by
    intro kind n
    rw [hmake]
    split <;> nofun
  constructor
  case ne_fault => intro f; rw [hmake]; split <;> nofun
  case unknown_iff =>
    exact iff_of_false (fun ⟨kind, n, h'⟩ => hknown kind n h') (not_not_intro hlists)
  case unknown_absent => intro kind n h'; exact absurd h' (hknown kind n)
  case doesNotFit_iff =>
    constructor
    · intro h'
      refine ⟨period, held, h, Nat.lt_of_not_le fun hle => ?_⟩
      rw [hmake, if_neg (Nat.not_lt.2 hle)] at h'
      cases h'
    · rintro ⟨period', held', h', hlt⟩
      obtain ⟨rfl, rfl⟩ := h.unique h'
      rw [hmake, if_pos hlt]
  case made_iff =>
    intro c
    constructor
    · intro h'
      rw [hmake] at h'
      split at h'
      · cases h'
      · next hle => exact ⟨period, held, h, Nat.le_of_not_lt hle, (Except.ok.inj h').symm⟩
    · rintro ⟨period', held', h', hle, rfl⟩
      obtain ⟨rfl, rfl⟩ := h.unique h'
      rw [hmake, if_neg (Nat.not_lt.2 hle)]
  case keepsToWords => exact fun c hc => (Start.isOf_of_make hc).1.keepsToWords

/-- **What comes of an attempt to make a start.**  It is as it should be exactly if the end of the
run and the length of the block fit words. -/
theorem checksFit_iff (hwords : p.record.FitsWords) : p.ChecksFit q r id ↔
    ∀ period held, p.Proposes q r id period held →
      period.index + held.length < wordSize 32 ∧
        (p.block period.blockId).length < wordSize 32 := by
  constructor
  · intro h period held hp
    have hstop : period.index + held.length < wordSize 32 :=
      Nat.lt_of_not_le fun hle => h.ne_fault _ (hp.make_eq_fault hle)
    refine ⟨hstop, Nat.lt_of_le_of_ne (length_block_le hwords _) fun hfull => ?_⟩
    -- nothing is kept of the length of such a block, so that no run at all is taken to fit
    have hmade := (h.made_iff _).2 ⟨period, held, hp, hfull ▸ hstop.le, rfl⟩
    have hkept : lowBits 32 (p.block period.blockId).length = 0 := hfull ▸ Nat.mod_self _
    have hpos : 0 < held.length := p.length_pos (p.section?_eq_some_iff.1 hp.2.2).1
    rw [hp.make_eq hstop, hkept, if_pos (Nat.add_pos_right _ hpos)] at hmade
    cases hmade
  · intro h
    by_cases hlists : p.record.Lists q ∧ p.record.Lists r ∧ p.record.Lists id
    · obtain ⟨period, held, hp⟩ := exists_proposes_iff.2 hlists
      exact hp.checksFit (h period held hp).1 (h period held hp).2
    · exact checksFit_of_not_lists hlists

end Program

namespace Marathon

/-- A day of two periods, for a section that takes both and one that is as long as can be told. -/
def record : ProgramRecord where
  teachers := [{ id := ⟨1⟩, periodIds := [⟨1⟩, ⟨2⟩] }]
  rooms := [{ id := ⟨1⟩, capacity := 10, periodIds := [⟨1⟩, ⟨2⟩] }]
  courses := [{ id := ⟨1⟩, estimatedSize := 5, maxSize := 5, teacherIds := [⟨1⟩] }]
  sections := [{ id := ⟨1⟩, courseId := ⟨1⟩, length := 2 },
    { id := ⟨2⟩, courseId := ⟨1⟩, length := 4294967295 }]
  blocks := [{ id := ⟨1⟩, periods := [{ id := ⟨1⟩ }, { id := ⟨2⟩ }] }]

def program : Program := ⟨record, by rfl⟩

theorem fitsWords_record : record.FitsWords :=
  ⟨by decide, by decide, by decide⟩

end Marathon

open Marathon in
/-- The shorter section starts in the first period, and is told apart from what would not fit in the
second one; the longer one does not fit in the first period, and this is told as well. -/
theorem checksFit_iff_marathon : record.FitsWords ∧
    (program.ChecksFit ⟨1⟩ ⟨1⟩ ⟨1⟩ ∧ program.ChecksFit ⟨2⟩ ⟨1⟩ ⟨1⟩ ∧ program.ChecksFit ⟨1⟩ ⟨1⟩ ⟨2⟩) ∧
      Start.make program ⟨1⟩ ⟨1⟩ ⟨1⟩ = .ok ⟨⟨⟨1⟩, 0⟩, ⟨1⟩, ⟨1⟩, ⟨1⟩, 2⟩ ∧
        Start.make program ⟨2⟩ ⟨1⟩ ⟨1⟩ = .error (.doesNotFit ⟨1⟩ ⟨2⟩) ∧
          Start.make program ⟨1⟩ ⟨1⟩ ⟨2⟩ = .error (.doesNotFit ⟨2⟩ ⟨1⟩) := by
  refine ⟨fitsWords_record, ⟨?_, ?_, ?_⟩, by rfl, by rfl, by rfl⟩
  all_goals
    refine (Program.checksFit_iff fitsWords_record).2 ?_
    rintro period held ⟨hq, -, hs⟩
    cases hq
    cases hs
    decide

open Marathon in
/-- No end can be told of the longer section in the second period, and the attempt is given up. -/
theorem not_checksFit_marathon : record.FitsWords ∧
    Start.make program ⟨2⟩ ⟨1⟩ ⟨2⟩ = .error (.fault .overflow) ∧
      ¬ program.ChecksFit ⟨2⟩ ⟨1⟩ ⟨2⟩ := by
  have hmake : Start.make program ⟨2⟩ ⟨1⟩ ⟨2⟩ = .error (.fault .overflow) := by rfl
  exact ⟨fitsWords_record, hmake, fun h => h.ne_fault _ hmake⟩

end Timetable

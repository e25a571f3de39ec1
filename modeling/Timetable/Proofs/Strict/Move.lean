import Timetable.Proofs.Strict.Rulebook

/-!
# Strict evaluation: moves

A move may give up with a fault, and then the strict form gives up with the same fault.  Apart from
that it succeeds, which is what `Except.mapError` says in `MoveKind.move!_eq`: neither an absent
entity nor an index out of range nor a negative difference is met.

What is drawn comes from lists of the program, so it is listed.  The schedules on the way are reached
from nothing by edits, and this is the invariant of the loops.
-/

set_option autoImplicit false

namespace Timetable

variable {G : Type} [RandomSource G] {p : Program}

/-! ## Drawing starts -/

/-- Draws a member of a list, at an index that must not be out of range. -/
def choose! {α : Type} (rng : G) (xs : List α) : Except Panic (Option α × G) := do
  if xs.isEmpty then return (none, rng)
  else
    let (i, rng) := RandomSource.below rng xs.length
    return (some (← nth! xs i), rng)

/-- Draws a start for a section among its compatible rooms and periods. -/
def randomStart! (p : Program) (id : SectionId) (rng : G) : Except Panic (Option Start × G) := do
  match ← choose! rng (← p.compatibleRooms! id) with
  | (none, rng) => return (none, rng)
  | (some room, rng) => do
    match ← choose! rng (← p.compatiblePeriods! id) with
    | (none, rng) => return (none, rng)
    | (some period, rng) => return (← Start.attempt! p period room id, rng)

/-- An index that is drawn is never out of range. -/
theorem choose!_eq {α : Type} (rng : G) (xs : List α) :
    choose! rng xs = .ok (RandomSource.choose rng xs) := by
  rw [choose!]
  split
  · next hempty =>
    rw [RandomSource.choose, if_pos hempty]
    rfl
  · next hne =>
    have hpos : 0 < xs.length := List.length_pos_iff.2 (mt List.isEmpty_iff.2 hne)
    have hlt := RandomSource.below_lt rng hpos
    rw [RandomSource.choose_eq hlt rfl]
    dsimp only
    rw [nth!_eq (List.getElem?_eq_getElem hlt)]
    rfl

theorem randomStart!_eq {id : SectionId} (hid : p.record.Lists id) (rng : G) :
    randomStart! p id rng = (randomStart p id rng).mapError .fault := by
  rw [randomStart!, Program.compatibleRooms!_eq hid, ok_bind, choose!_eq, ok_bind, randomStart]
  rcases RandomSource.choose rng (p.compatibleRooms id) with ⟨room, rng⟩
  cases room with
  | none => rfl
  | some room =>
    dsimp only
    rw [Program.compatiblePeriods!_eq hid, ok_bind, choose!_eq, ok_bind]
    rcases RandomSource.choose rng (p.compatiblePeriods id) with ⟨period, rng⟩
    cases period with
    | none => rfl
    | some period =>
      dsimp only
      rw [Start.attempt!_eq]
      cases PlacementError.toOption (Start.make p period room id) <;> rfl

/-! ## Placing sections -/

namespace Schedule

/-- The sections that are not placed are listed. -/
theorem lists_of_mem_unscheduled {s : Schedule p} {id : SectionId} (h : id ∈ s.unscheduled) :
    p.record.Lists id := by
  obtain ⟨held, hheld, rfl⟩ := List.mem_map.1 (List.mem_filter.1 h).1
  exact Program.lists_sectionId hheld

/-- Takes out a section wherever it is, and says where it was. -/
def removeSection! (s : Schedule p) (id : SectionId) : Except Panic (Option Start × Schedule p) :=
  match s.startOf? id with
  | none => return (none, s)
  | some start => return (some start, s.remove start)

theorem removeSection!_eq (s : Schedule p) (id : SectionId) :
    s.removeSection! id = .ok (s.removeSection id) := by
  rw [removeSection!, removeSection]
  cases s.startOf? id <;> rfl

end Schedule

namespace Move

/-- Tries a random start for each of some sections, one after the other. -/
def placeEach! (place : Schedule p → Start → Except Panic (Schedule p)) :
    List SectionId → Schedule p → G → Except Panic (Step G (Schedule p))
  | [], s, rng => .ok ⟨s, rng, 0⟩
  | id :: rest, s, rng => do
    let (start, rng) ← randomStart! p id rng
    match start with
    | none => placeEach! place rest s rng
    | some c => do placeEach! place rest (← place s c) rng

/-- Tries random starts for a random batch of the sections that are not placed. -/
def placeBatch! (place : Schedule p → Start → Except Panic (Schedule p)) (s : Schedule p)
    (temperature : Float) (rng : G) : Except Panic (Step G (Schedule p)) :=
  if s.unscheduled.isEmpty then .ok ⟨s, rng, 0⟩
  else
    let (ids, rng) := RandomSource.shuffle rng s.unscheduled
    placeEach! place (ids.take (batchSize ids.length temperature)) s rng

/-- The rooms and periods in which a room is available and free, in the order of the program. -/
def freePlaces! (s : Schedule p) : Except Panic (List (RoomId × PeriodId)) := do
  let places ← p.rooms.flatMapM fun r => do return (← p.roomPeriods! r.id).map fun q => (r.id, q)
  places.filterM fun (r, q) => do return (← s.occurringAt! (← p.slotOf! q) r).isNone

/-- Forces sections into places, one into each. -/
def fillPlaces! (chain : RuleChain) :
    List (SectionId × RoomId × PeriodId) → Schedule p → Except Panic (Schedule p)
  | [], s => .ok s
  | (id, room, period) :: rest, s => do
    match ← Start.attempt! p period room id with
    | none => fillPlaces! chain rest s
    | some c => do fillPlaces! chain rest (← chain.force! s c).2

/-- Places sections into free rooms and takes out what is in the way. -/
def fillRooms! (chain : RuleChain) (s : Schedule p) (temperature : Float) (rng : G) :
    Except Panic (Step G (Schedule p)) :=
  if s.unscheduled.isEmpty then .ok ⟨s, rng, 0⟩
  else do
    let (ids, rng) := RandomSource.shuffle rng s.unscheduled
    let (places, rng) := RandomSource.shuffle rng (← freePlaces! s)
    let s ← fillPlaces! chain ((ids.zip places).take (batchSize ids.length temperature)) s
    return ⟨s, rng, 0⟩

/-! ## Swapping sections -/

/-- Exchanges the places of two starts.  If either section cannot be placed, nothing changes. -/
def swapPair! (chain : RuleChain) (s : Schedule p) (a b : Start) :
    Except Panic (Schedule p) := do
  if a.sectionId = b.sectionId then return s
  let first ← Start.attempt! p a.periodId a.roomId b.sectionId
  let second ← Start.attempt! p b.periodId b.roomId a.sectionId
  match first, second with
  | some first, some second =>
    let cleared := (← s.removeSection! a.sectionId).2
    let cleared := (← cleared.removeSection! b.sectionId).2
    let (firstReport, half) ← chain.assign! cleared first
    if !firstReport.isValid then return s
    let (secondReport, swapped) ← chain.assign! half second
    return if secondReport.isValid then swapped else s
  | _, _ => return s

/-- Tries so many swaps of random pairs; with fewer than two sections there is nothing to swap. -/
def swapTimes! (chain : RuleChain) :
    Nat → Schedule p → G → Except Panic (Step G (Schedule p))
  | 0, s, rng => .ok ⟨s, rng, 0⟩
  | n + 1, s, rng =>
    if s.count < 2 then .ok ⟨s, rng, 0⟩
    else
      let (i, rng) := RandomSource.below rng s.count
      let (j, rng) := RandomSource.below rng s.count
      match s.nthStart? i, s.nthStart? j with
      | some a, some b => do swapTimes! chain n (← swapPair! chain s a b) rng
      | _, _ => swapTimes! chain n s rng

/-- Exchanges the places of sections. -/
def swap! (chain : RuleChain) (s : Schedule p) (temperature : Float) (rng : G) :
    Except Panic (Step G (Schedule p)) := do
  swapTimes! chain (← (swapCount temperature).mapError .fault) s rng

end Move

/-- The move of a kind. -/
def MoveKind.move! (chain : RuleChain) (s : Schedule p) (temperature : Float) (rng : G) :
    MoveKind → Except Panic (Step G (Schedule p))
  | greedy => Move.placeBatch! (fun s c => do return (← chain.assign! s c).2) s temperature rng
  | destructive => Move.placeBatch! (fun s c => do return (← chain.force! s c).2) s temperature rng
  | destructiveByRoom => Move.fillRooms! chain s temperature rng
  | swapping => Move.swap! chain s temperature rng

/-! ## Moves succeed -/

namespace Move

variable {P : Schedule p → Prop} {chain : RuleChain} {s : Schedule p}

section Placing

variable {place : Schedule p → Start → Schedule p}
  {place! : Schedule p → Start → Except Panic (Schedule p)}
  (hplace : ∀ {s c}, c.IsOf p → P s → place! s c = .ok (place s c) ∧ P (place s c))

include hplace

theorem placeEach!_eq {ids : List SectionId} (hids : ∀ id ∈ ids, p.record.Lists id) (hs : P s)
    (rng : G) :
    placeEach! place! ids s rng = (placeEach place ids s rng).mapError .fault := by
  induction ids generalizing s rng with
  | nil => rfl
  | cons id ids ih =>
    have hrest : ∀ id ∈ ids, p.record.Lists id := fun id hid => hids id (List.mem_cons_of_mem _ hid)
    rw [placeEach!, placeEach, randomStart!_eq (hids id List.mem_cons_self), mapError_bind]
    cases hdraw : randomStart p id rng with
    | error f => rfl
    | ok drawn =>
      obtain ⟨start, rng'⟩ := drawn
      cases start with
      | none => exact ih hrest hs rng'
      | some c =>
        obtain ⟨hok, hnext⟩ := hplace (isOf_of_randomStart hdraw) hs
        rw [mapError_ok, ok_bind, ok_bind]
        simp only [hok, ok_bind]
        exact ih hrest hnext rng'

theorem placeBatch!_eq (hs : P s) (temperature : Float) (rng : G) :
    placeBatch! place! s temperature rng = (placeBatch place s temperature rng).mapError .fault := by
  rw [placeBatch!, placeBatch]
  split
  · rfl
  · refine placeEach!_eq hplace (fun id hid => ?_) hs _
    have hmem := (RandomSource.shuffle_perm rng s.unscheduled).mem_iff.1 (List.mem_of_mem_take hid)
    exact Schedule.lists_of_mem_unscheduled hmem

end Placing

theorem freePlaces!_eq (s : Schedule p) : freePlaces! s = .ok (freePlaces s) := by
  have hplaces : p.rooms.flatMapM (fun r => do
      return (← p.roomPeriods! r.id).map fun q => (r.id, q)) =
        (.ok (p.rooms.flatMap fun r => (p.roomPeriods r.id).map fun q => (r.id, q)) :
          Except Panic _) := by
    refine flatMapM_eq_ok fun r hr => ?_
    rw [Program.roomPeriods!_eq (Program.lists_roomId hr)]
    rfl
  rw [freePlaces!, hplaces, ok_bind]
  refine filterM_eq_ok fun place hplace => ?_
  obtain ⟨r, hr, hplace⟩ := List.mem_flatMap.1 hplace
  obtain ⟨q, hq, rfl⟩ := List.mem_map.1 hplace
  have hroom := (Program.room!_eq (Program.lists_roomId hr)).2
  simp only [Program.slotOf!_eq (Program.lists_roomPeriodId hroom (mem_distinct.1 hq)), ok_bind,
    s.occurringAt!_eq]
  rfl

section Edits

variable (hdup : .duplicateSections ∈ chain.book.rules)
  (hroom : .roomConflict ∈ chain.book.rules)

include hdup hroom

theorem fillPlaces!_eq (hs : Edits chain.book (.empty p) s)
    (places : List (SectionId × RoomId × PeriodId)) :
    fillPlaces! chain places s = (fillPlaces chain.book places s).mapError .fault := by
  induction places generalizing s with
  | nil => rfl
  | cons place places ih =>
    obtain ⟨id, room, period⟩ := place
    rw [fillPlaces!, fillPlaces, Start.attempt!_eq, mapError_bind]
    cases hmake : PlacementError.toOption (Start.make p period room id) with
    | error f => rfl
    | ok start =>
      cases start with
      | none => exact ih hs
      | some c =>
        have hc := (Start.isOf_of_toOption_make hmake).1
        rw [mapError_ok, ok_bind, ok_bind]
        simp only [RuleChain.force!_eq (hs.coherent hdup hroom .empty) hc, ok_bind]
        exact ih (hs.force hdup hroom chain.isBuiltIn_book.namesPlaced .empty hc)

theorem fillRooms!_eq (hs : Edits chain.book (.empty p) s) (temperature : Float)
    (rng : G) :
    fillRooms! chain s temperature rng =
      (fillRooms chain.book s temperature rng).mapError .fault := by
  rw [fillRooms!, fillRooms]
  split
  · rfl
  · simp only [freePlaces!_eq, ok_bind, fillPlaces!_eq hdup hroom hs, mapError_bind]
    rfl

theorem swapPair!_eq (hs : Edits chain.book (.empty p) s) (a b : Start) :
    swapPair! chain s a b = (swapPair chain.book s a b).mapError .fault := by
  have hcleared := hs.without hdup hroom .empty a b
  rw [without] at hcleared
  rw [swapPair!, swapPair]
  split
  · rfl
  · rw [Start.attempt!_eq, Start.attempt!_eq, mapError_bind]
    simp only [mapError_bind]
    cases hfirst : PlacementError.toOption (Start.make p a.periodId a.roomId b.sectionId) with
    | error f => rfl
    | ok first =>
      cases hsecond : PlacementError.toOption (Start.make p b.periodId b.roomId a.sectionId) with
      | error f => rfl
      | ok second =>
        rcases first with _ | first
        · rfl
        · rcases second with _ | second
          · rfl
          · have hfirstOf := (Start.isOf_of_toOption_make hfirst).1
            have hsecondOf := (Start.isOf_of_toOption_make hsecond).1
            have hhalf := (hcleared.assign hfirstOf).coherent hdup hroom .empty
            simp only [mapError_ok, ok_bind, Schedule.removeSection!_eq,
              RuleChain.assign!_eq (hcleared.coherent hdup hroom .empty) hfirstOf]
            split
            · rfl
            · rw [RuleChain.assign!_eq hhalf hsecondOf]
              rfl

theorem swapTimes!_eq (hs : Edits chain.book (.empty p) s) (n : Nat) (rng : G) :
    swapTimes! chain n s rng = (swapTimes chain.book n s rng).mapError .fault := by
  induction n generalizing s rng with
  | zero => rfl
  | succ n ih =>
    rw [swapTimes!, swapTimes]
    split
    · rfl
    · simp only
      generalize RandomSource.below (RandomSource.below rng s.count).2 s.count = drawn
      cases s.nthStart? (RandomSource.below rng s.count).1 with
      | none => exact ih hs _
      | some a =>
        cases s.nthStart? drawn.1 with
        | none => exact ih hs _
        | some b =>
          simp only [swapPair!_eq hdup hroom hs, mapError_bind]
          cases hpair : swapPair chain.book s a b with
          | error f => rfl
          | ok t => exact ih (hs.exchange hdup hroom .empty hpair) _

theorem swap!_eq (hs : Edits chain.book (.empty p) s) (temperature : Float) (rng : G) :
    swap! chain s temperature rng = (swap chain.book s temperature rng).mapError .fault := by
  rw [swap!, swap, mapError_bind]
  simp only [swapTimes!_eq hdup hroom hs]

end Edits

end Move

/-- **No move looks up anything in vain**, wherever edits have led and whatever is drawn. -/
theorem MoveKind.move!_eq {chain : RuleChain} {s : Schedule p}
    (hdup : .duplicateSections ∈ chain.book.rules) (hroom : .roomConflict ∈ chain.book.rules)
    (hs : Edits chain.book (.empty p) s) (temperature : Float) (rng : G)
    (kind : MoveKind) : kind.move! chain s temperature rng =
      (kind.move chain.book s temperature rng).mapError .fault := by
  cases kind with
  | greedy =>
    refine Move.placeBatch!_eq (fun {s c} hc hs => ?_) hs temperature rng
    rw [RuleChain.assign!_eq (hs.coherent hdup hroom .empty) hc]
    exact ⟨rfl, hs.assign hc⟩
  | destructive =>
    refine Move.placeBatch!_eq (fun {s c} hc hs => ?_) hs temperature rng
    rw [RuleChain.force!_eq (hs.coherent hdup hroom .empty) hc]
    exact ⟨rfl, hs.force hdup hroom chain.isBuiltIn_book.namesPlaced .empty hc⟩
  | destructiveByRoom => exact Move.fillRooms!_eq hdup hroom hs temperature rng
  | swapping => exact Move.swap!_eq hdup hroom hs temperature rng

end Timetable

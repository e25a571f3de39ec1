import Timetable.Move.Placing

/-!
# The move that swaps sections

`Move.swap` draws two sections that are placed and exchanges their rooms and periods, if the rules
allow it, and does so a number of times that grows with the temperature.
-/

set_option autoImplicit false

namespace Timetable

/-- How many swaps are tried at a temperature: the whole part of fifty times the temperature, and
one more. -/
def swapCount (temperature : Float) : Except Fault Nat :=
  addWithin 64 (wholePart (50.0 * positivePart temperature)) 1

namespace Move

variable {G : Type} [RandomSource G] {p : Program}

/-- Exchanges the places of two starts.  If either section cannot be placed, nothing changes. -/
def swapPair (book : Rulebook) (s : Schedule p) (a b : Start) : Except Fault (Schedule p) := do
  if a.sectionId = b.sectionId then return s
  let first ← PlacementError.toOption (Start.make p a.periodId a.roomId b.sectionId)
  let second ← PlacementError.toOption (Start.make p b.periodId b.roomId a.sectionId)
  match first, second with
  | some first, some second =>
    let cleared := (s.removeSection a.sectionId).2
    let cleared := (cleared.removeSection b.sectionId).2
    let (firstReport, half) := book.assign cleared first
    if !firstReport.isValid then return s
    let (secondReport, swapped) := book.assign half second
    return if secondReport.isValid then swapped else s
  | _, _ => return s

/-- Tries so many swaps of random pairs; with fewer than two sections there is nothing to swap. -/
def swapTimes (book : Rulebook) : Nat → Schedule p → G → Except Fault (Step G (Schedule p))
  | 0, s, rng => .ok ⟨s, rng, 0⟩
  | n + 1, s, rng =>
    if s.count < 2 then .ok ⟨s, rng, 0⟩
    else
      let (i, rng) := RandomSource.below rng s.count
      let (j, rng) := RandomSource.below rng s.count
      match s.nthStart? i, s.nthStart? j with
      | some a, some b => do
        let s ← swapPair book s a b
        swapTimes book n s rng
      | _, _ => swapTimes book n s rng

/-- Exchanges the places of sections. -/
def swap (book : Rulebook) : Move G (Schedule p) := fun s temperature rng => do
  let n ← swapCount temperature
  swapTimes book n s rng

end Move

end Timetable

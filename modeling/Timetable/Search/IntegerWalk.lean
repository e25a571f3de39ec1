import Timetable.Random.Generator
import Timetable.Search.Annealer

/-!
# Searches among the integers

Small landscapes over the integers and moves through them, simple enough to follow a search by hand.
-/

set_option autoImplicit false

namespace Timetable

/-- A score of integers. -/
inductive Landscape
  /-- `-(x - k) ^ 2`, with its peak at `k`. -/
  | parabola (k : Int)
  /-- The integer itself. -/
  | identity
  /-- The remainder by `k`, which is not negative. -/
  | remainder (k : Int)
  | flat
  /-- The integer itself up to `k`, and NaN above. -/
  | nanAbove (k : Int)
  deriving DecidableEq, Repr, Inhabited

/-- The square of a number. -/
def square (x : Float) : Float := x * x

/-- The score of an integer. -/
def Landscape.score : Landscape → Int → Float
  | parabola k, x => -square (Float.ofInt (x - k))
  | identity, x => Float.ofInt x
  | remainder k, x => Float.ofInt (x % k)
  | flat, _ => 0.0
  | nanAbove k, x => if x > k then 0.0 / 0.0 else Float.ofInt x

/-- The greatest integer that is not above a number, kept within 64 bits; 0 for NaN. -/
def floorInt (x : Float) : Int :=
  let i := x.toInt64.toInt
  if Float.ofInt i > x && i > Int64.minValue.toInt then i - 1 else i

/-- A move among the integers. -/
inductive Stride
  /-- One up or one down, with equal probability. -/
  | step
  /-- A fixed distance. -/
  | fixed (distance : Int)
  /-- At most `k` up or down. -/
  | jump (k : Int)
  /-- A distance that grows with the temperature. -/
  | thermal (k : Int)
  /-- One up, taking so many milliseconds. -/
  | slow (pause : Nat)
  /-- One up, but it gives up above `k`. -/
  | upTo (k : Int)
  deriving DecidableEq, Repr, Inhabited

/-- The move of a stride. -/
def Stride.move : Stride → Move Generator Int
  | step => fun x _ rng =>
    let (word, rng) := rng.next
    .ok ⟨if word >>> 63 = 1 then x + 1 else x - 1, rng, 0⟩
  | fixed distance => fun x _ rng => .ok ⟨x + distance, rng, 0⟩
  | jump k => fun x _ rng =>
    let (word, rng) := rng.next
    .ok ⟨x + (word.toNat : Int) % (2 * k + 1) - k, rng, 0⟩
  | thermal k => fun x t rng => .ok ⟨x + floorInt (t * Float.ofInt k), rng, 0⟩
  | slow pause => fun x _ rng => .ok ⟨x + 1, rng, pause⟩
  | upTo k => fun x _ rng => if x > k then .error (.aborted s!"above {k}") else .ok ⟨x + 1, rng, 0⟩

end Timetable

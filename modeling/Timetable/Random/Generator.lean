import Timetable.Numeric.Natural

/-!
# A seeded generator of random words

A `Generator` is passed along explicitly: a draw returns the word drawn together with the generator
to go on with, so equal seeds give equal runs.

The generator is xoshiro256++.  Its four words of state are filled from a seed by `scramble`, the
SplitMix64 step, which turns neighbouring seeds into unrelated states.
-/

set_option autoImplicit false

namespace Timetable

/-- The increment of SplitMix64, an odd constant whose bits look random. -/
def goldenGamma : UInt64 := 0x9e3779b97f4a7c15

/-- The output function of SplitMix64: a bijection on words that spreads every bit of its argument
over the whole word. -/
def scramble (x : UInt64) : UInt64 :=
  let y := (x ^^^ (x >>> 30)) * 0xbf58476d1ce4e5b9
  let z := (y ^^^ (y >>> 27)) * 0x94d049bb133111eb
  z ^^^ (z >>> 31)

/-- A word turned left by `n` bits, for `0 < n < 64`. -/
def rotateLeft (x : UInt64) (n : UInt64) : UInt64 :=
  (x <<< n) ||| (x >>> (64 - n))

/-- The state of a generator. -/
structure Generator where
  a : UInt64
  b : UInt64
  c : UInt64
  d : UInt64
  deriving DecidableEq, Repr, Inhabited

namespace Generator

/-- The generator that starts from a seed. -/
def ofSeed (seed : UInt64) : Generator where
  a := scramble (seed + goldenGamma)
  b := scramble (seed + goldenGamma * 2)
  c := scramble (seed + goldenGamma * 3)
  d := scramble (seed + goldenGamma * 4)

/-- Draws a word of 64 bits. -/
def next (g : Generator) : UInt64 × Generator :=
  let result := rotateLeft (g.a + g.d) 23 + g.a
  let c := g.c ^^^ g.a
  let d := g.d ^^^ g.b
  (result, {
    a := g.a ^^^ d
    b := g.b ^^^ c
    c := c ^^^ (g.b <<< 17)
    d := rotateLeft d 45 })

/-- Draws a number below `2 ^ 32`: the upper half of a word. -/
def nextHalf (g : Generator) : Nat × Generator :=
  let (word, g) := g.next
  ((word >>> 32).toNat, g)

/-- Draws from the interval `[0, 1)`: the upper 53 bits of a word, as so many units of `2 ^ -53`. -/
def nextUnit (g : Generator) : Float × Generator :=
  let (word, g) := g.next
  ((word >>> 11).toFloat / 9007199254740992.0, g)

end Generator

end Timetable

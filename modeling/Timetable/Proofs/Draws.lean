import Mathlib.Tactic.NormNum
import Timetable.Random.Choice

/-!
# What can be drawn

An index below `n` is drawn from half a word, and from half of the next word where the first one
leaves the index in doubt.

* `Generator.exists_words_zero`: any two words are drawn in front of a zero.
* `Generator.exists_halves`: of four words, the upper halves of the first and the third and the
  upper bits of the others may be anything.
* `Generator.exists_below_below`: every pair of indices is drawn, one after the other.

The last one says something about the generator, not only about how indices are made of words: two
draws may take four words, as many as a state has, and the state without a bit in it is left out.
-/

set_option autoImplicit false

namespace Timetable

/-! ## Rotations -/

theorem wordSize_mul (m n : Nat) : wordSize m * wordSize n = wordSize (m + n) := by
  simp only [wordSize_eq_pow, Nat.pow_eq, Nat.pow_add]

/-- Turning a word to the left moves its upper bits to the lower end. -/
theorem toNat_rotateLeft {n : Nat} (hpos : 0 < n) (h : n < 64) (x : UInt64) :
    (rotateLeft x (UInt64.ofNat n)).toNat =
      x.toNat % wordSize (64 - n) * wordSize n + x.toNat / wordSize (64 - n) := by
  have hsize : wordSize n * wordSize (64 - n) = wordSize 64 := by
    rw [wordSize_mul, Nat.add_sub_cancel' (Nat.le_of_lt h)]
  have hn : (UInt64.ofNat n).toNat = n := by
    rw [UInt64.toNat_ofNat', Nat.mod_eq_of_lt (by omega)]
  have hn' : (64 - UInt64.ofNat n).toNat = 64 - n := by
    rw [UInt64.toNat_sub_of_le _ _ (by rw [UInt64.le_iff_toNat_le, hn]; exact Nat.le_of_lt h), hn]
    rfl
  have hleft : (x <<< UInt64.ofNat n).toNat = wordSize n * (x.toNat % wordSize (64 - n)) := by
    rw [UInt64.toNat_shiftLeft, hn, Nat.mod_eq_of_lt h, Nat.shiftLeft_eq, ← Nat.pow_eq,
      ← wordSize_eq_pow, Nat.mul_comm, ← Nat.mul_mod_mul_left, hsize]
    rfl
  have hright : (x >>> (64 - UInt64.ofNat n)).toNat = x.toNat / wordSize (64 - n) := by
    rw [UInt64.toNat_shiftRight, hn', Nat.mod_eq_of_lt (by omega), Nat.shiftRight_eq_div_pow,
      wordSize_eq_pow]
    rfl
  have hlt : x.toNat / wordSize (64 - n) < wordSize n :=
    Nat.div_lt_of_lt_mul (Nat.mul_comm _ _ ▸ hsize ▸ x.toNat_lt)
  rw [rotateLeft, UInt64.toNat_or, hleft, hright, Nat.mul_comm _ (wordSize n)]
  rw [wordSize_eq_pow n] at hlt ⊢
  exact (Nat.two_pow_add_eq_or_of_lt hlt _).symm

/-- Turning may be undone by turning further. -/
theorem exists_rotateLeft_eq {n : Nat} (hpos : 0 < n) (h : n < 64) (y : UInt64) :
    ∃ x, rotateLeft x (UInt64.ofNat n) = y := by
  refine ⟨rotateLeft y (UInt64.ofNat (64 - n)), UInt64.toNat_inj.1 ?_⟩
  have hsize : wordSize n * wordSize (64 - n) = wordSize 64 := by
    rw [wordSize_mul, Nat.add_sub_cancel' (Nat.le_of_lt h)]
  have hupper : y.toNat / wordSize n < wordSize (64 - n) :=
    Nat.div_lt_of_lt_mul (hsize ▸ y.toNat_lt)
  rw [toNat_rotateLeft hpos h, toNat_rotateLeft (by omega) (by omega),
    Nat.sub_sub_self (Nat.le_of_lt h), Nat.mul_comm (y.toNat % _), Nat.mul_add_mod,
    Nat.mod_eq_of_lt hupper, Nat.mul_add_div (Nat.zero_lt_of_lt hupper), Nat.div_eq_of_lt hupper,
    Nat.add_zero, Nat.mul_comm, Nat.div_add_mod]

theorem rotateLeft_rotateLeft (x : UInt64) : rotateLeft (rotateLeft x 45) 23 = rotateLeft x 4 := by
  have h : (rotateLeft x 45).toNat = x.toNat % 524288 * 35184372088832 + x.toNat / 524288 :=
    toNat_rotateLeft (n := 45) (by decide) (by decide) x
  have h' : (rotateLeft (rotateLeft x 45) 23).toNat = (rotateLeft x 45).toNat % 2199023255552 *
      8388608 + (rotateLeft x 45).toNat / 2199023255552 :=
    toNat_rotateLeft (n := 23) (by decide) (by decide) (rotateLeft x 45)
  have h'' : (rotateLeft x 4).toNat = x.toNat % 1152921504606846976 * 16 +
      x.toNat / 1152921504606846976 := toNat_rotateLeft (n := 4) (by decide) (by decide) x
  have hx := x.toNat_lt
  apply UInt64.toNat_inj.1
  rw [h', h'', h]
  omega

@[simp] theorem rotateLeft_zero (n : UInt64) : rotateLeft 0 n = 0 := by simp [rotateLeft]

theorem xor_xor_cancel_left (x y : UInt64) : x ^^^ (x ^^^ y) = y := by
  rw [← UInt64.xor_assoc, UInt64.xor_self, UInt64.zero_xor]

theorem xor_xor_cancel_right (x y : UInt64) : x ^^^ y ^^^ y = x := by
  rw [UInt64.xor_assoc, UInt64.xor_self, UInt64.xor_zero]

namespace Generator

/-! ## Successive words -/

/-- The word that is drawn after `k` others. -/
def wordAfter (g : Generator) : (k : Nat) → UInt64
  | 0 => g.next.1
  | k + 1 => g.next.2.wordAfter k

/-- The upper half of the word that is drawn after `k` others. -/
def halfAfter (g : Generator) (k : Nat) : Nat := (g.wordAfter k).toNat / wordSize 32

/-- What is drawn from the first and the last word of a state. -/
def stir (a d : UInt64) : UInt64 := rotateLeft (a + d) 23 + a

/-- Any word is drawn, whatever the first word of the state. -/
theorem exists_stir_eq (a x : UInt64) : ∃ d, stir a d = x := by
  obtain ⟨u, hu⟩ : ∃ u, rotateLeft u 23 = x - a :=
    exists_rotateLeft_eq (n := 23) (by decide) (by decide) (x - a)
  refine ⟨u - a, ?_⟩
  rw [stir, UInt64.add_comm a, UInt64.sub_add_cancel, hu, UInt64.sub_add_cancel]

/-- **Any two words are drawn in front of a zero.** -/
theorem exists_words_zero (x : UInt64) {y : UInt64} (hy : y ≠ 0) : ∃ g : Generator,
    g ≠ ⟨0, 0, 0, 0⟩ ∧ g.wordAfter 0 = x ∧ g.wordAfter 1 = y ∧ g.wordAfter 2 = 0 := by
  obtain ⟨v, hv⟩ : ∃ v, rotateLeft v 4 = y :=
    exists_rotateLeft_eq (n := 4) (by decide) (by decide) y
  obtain ⟨d, hd⟩ := exists_stir_eq v x
  -- the first step makes the first word vanish and the second and the last one equal
  have hfirst : next ⟨v, d ^^^ v, d ^^^ v ^^^ rotateLeft v 45 ^^^ v, d⟩ =
      (stir v d, ⟨0, rotateLeft v 45, d ^^^ v ^^^ rotateLeft v 45 ^^^ (d ^^^ v) <<< 17,
        rotateLeft v 45⟩) := by
    simp only [next, stir, xor_xor_cancel_left, xor_xor_cancel_right, UInt64.xor_self]
  have hsecond : ∀ u c : UInt64, next ⟨0, u, c, u⟩ =
      (rotateLeft u 23, ⟨0, u ^^^ c, c ^^^ (u <<< 17), 0⟩) := by
    intro u c
    simp only [next, UInt64.xor_self, UInt64.zero_add, UInt64.add_zero, UInt64.xor_zero,
      rotateLeft_zero]
  refine ⟨⟨v, d ^^^ v, d ^^^ v ^^^ rotateLeft v 45 ^^^ v, d⟩, fun hzero => hy ?_, ?_, ?_, ?_⟩
  · rw [← hv, (Generator.mk.inj hzero).1, rotateLeft_zero]
  · rw [wordAfter, hfirst, hd]
  · rw [wordAfter, hfirst, wordAfter, hsecond, rotateLeft_rotateLeft, hv]
  · rw [wordAfter, hfirst, wordAfter, hsecond, wordAfter, next, UInt64.zero_add, rotateLeft_zero,
      UInt64.zero_add]

/-- The upper halves of two words that are drawn in front of a zero. -/
theorem exists_halves_zero {x y : Nat} (hx : x < wordSize 32) (hy : y < wordSize 32) :
    ∃ g : Generator, g ≠ ⟨0, 0, 0, 0⟩ ∧ g.halfAfter 0 = x ∧ g.halfAfter 1 = y ∧
      g.halfAfter 2 = 0 := by
  have hword : wordSize 32 = 4294967296 := rfl
  have hfits : ∀ z < wordSize 32, (UInt64.ofNat (z * wordSize 32 + 1)).toNat =
      z * wordSize 32 + 1 := by
    intro z hz
    rw [hword] at hz ⊢
    rw [UInt64.toNat_ofNat', Nat.mod_eq_of_lt (by omega)]
  have hhalf : ∀ z < wordSize 32, (UInt64.ofNat (z * wordSize 32 + 1)).toNat / wordSize 32 = z := by
    intro z hz
    rw [hfits z hz, hword]
    omega
  have hne : UInt64.ofNat (y * wordSize 32 + 1) ≠ 0 := by
    intro hzero
    have := hfits y hy
    rw [hzero] at this
    exact absurd this.symm (Nat.succ_ne_zero _)
  obtain ⟨g, hg, hword₀, hword₁, hword₂⟩ :=
    exists_words_zero (UInt64.ofNat (x * wordSize 32 + 1)) hne
  exact ⟨g, hg, by rw [halfAfter, hword₀, hhalf x hx], by rw [halfAfter, hword₁, hhalf y hy],
    by rw [halfAfter, hword₂]; rfl⟩

/-! ## Four words -/

theorem toNat_stir (a d : UInt64) : (stir a d).toNat =
    ((a + d).toNat % 2199023255552 * 8388608 + (a + d).toNat / 2199023255552 + a.toNat) %
      18446744073709551616 := by
  have h : (rotateLeft (a + d) 23).toNat =
      (a + d).toNat % 2199023255552 * 8388608 + (a + d).toNat / 2199023255552 :=
    toNat_rotateLeft (n := 23) (by decide) (by decide) _
  rw [stir, UInt64.toNat_add, h]

/-- What is left of a number after whole turns, without its lower part. -/
theorem upper_eq (unit count : Nat) {upper turns rest : Nat} (hupper : upper < count)
    (hrest : rest < unit) :
    (unit * upper + unit * count * turns + rest) % (unit * count) / unit = upper := by
  have hsum : unit * upper + unit * count * turns + rest =
      rest + unit * (upper + count * turns) := by
    rw [Nat.mul_add, Nat.mul_assoc, Nat.add_comm]
  rw [Nat.mod_mul_right_div_self, hsum, Nat.add_mul_div_left _ _ (Nat.zero_lt_of_lt hrest),
    Nat.div_eq_of_lt hrest, Nat.zero_add, Nat.add_mul_mod_self_left, Nat.mod_eq_of_lt hupper]

/-- The upper bit of what is drawn may be chosen by the four upper bits of the first word. -/
theorem exists_upper_stir (other : Nat) {low bit : Nat} (hlow : low < wordSize 60)
    (hbit : bit < 2) : ∃ upper < 16, ∀ a d : UInt64, a.toNat = low + upper * wordSize 60 →
      d.toNat % wordSize 41 = other → (stir a d).toNat / wordSize 63 = bit := by
  simp only [wordSize, Nat.reduceShiftLeft] at hlow ⊢
  obtain ⟨base, hbase⟩ : ∃ base, base = (low + other) % 2199023255552 * 8388608 + low := ⟨_, rfl⟩
  refine ⟨(8 * bit + 32 - base / 1152921504606846976) % 16, Nat.mod_lt _ (by decide),
    fun a d ha hd => ?_⟩
  have hsum : (a + d).toNat % 2199023255552 = (low + other) % 2199023255552 := by
    rw [UInt64.toNat_add]
    omega
  have hcarry : (a + d).toNat / 2199023255552 < 8388608 := by
    have := (a + d).toNat_lt
    omega
  obtain ⟨turns, hturns⟩ : ∃ turns, base / 1152921504606846976 +
      (8 * bit + 32 - base / 1152921504606846976) % 16 = 8 * bit + 16 * turns := by
    refine ⟨(base / 1152921504606846976 +
      (8 * bit + 32 - base / 1152921504606846976) % 16) / 16, ?_⟩
    omega
  have hsplit : (low + other) % 2199023255552 * 8388608 + (a + d).toNat / 2199023255552 + a.toNat =
      9223372036854775808 * bit + 18446744073709551616 * turns +
        (base % 1152921504606846976 + (a + d).toNat / 2199023255552) := by
    omega
  rw [toNat_stir, hsum, hsplit]
  exact upper_eq 9223372036854775808 2 hbit (by omega)

/-- The upper half of what is drawn may be chosen by the lower bits of the last word. -/
theorem exists_half_stir {half : Nat} (hhalf : half < wordSize 32) (a : UInt64) :
    ∃ low < wordSize 60, ∀ d : UInt64, (a + d).toNat % wordSize 60 = low →
      (stir a d).toNat / wordSize 32 = half := by
  simp only [wordSize, Nat.reduceShiftLeft] at hhalf ⊢
  have ha := a.toNat_lt
  -- the word to be reached without the lower bits of `a`, which the sum restores
  obtain ⟨goal, turns, hlt, hmultiple, hgoal⟩ : ∃ goal turns, goal < 18446744073709551616 ∧
      goal % 8388608 = 0 ∧ goal + a.toNat / 8388608 * 8388608 =
        4294967296 * half + 18446744073709551616 * turns := by
    by_cases hle : a.toNat / 8388608 * 8388608 ≤ 4294967296 * half
    · exact ⟨4294967296 * half - a.toNat / 8388608 * 8388608, 0, by omega, by omega, by omega⟩
    · exact ⟨4294967296 * half + 18446744073709551616 - a.toNat / 8388608 * 8388608, 1, by omega,
        by omega, by omega⟩
  refine ⟨goal / 8388608, by omega, fun d hd => ?_⟩
  have hsum := (a + d).toNat_lt
  have hlow : (a + d).toNat % 2199023255552 * 8388608 = goal := by
    have hdvd : 2199023255552 ∣ 1152921504606846976 := by decide
    rw [← Nat.mod_mod_of_dvd _ hdvd, hd]
    omega
  have hcarry : (a + d).toNat / 2199023255552 < 8388608 := by omega
  have hsplit : goal + (a + d).toNat / 2199023255552 + a.toNat = 4294967296 * half +
      18446744073709551616 * turns + (a.toNat % 8388608 + (a + d).toNat / 2199023255552) := by
    omega
  rw [toNat_stir, hlow, hsplit]
  exact upper_eq 4294967296 4294967296 hhalf (by omega)

/-- The first word of the state from which the fourth word is drawn. -/
def blend (w b : UInt64) : UInt64 := rotateLeft w 45 ^^^ (b ^^^ w ^^^ b <<< 17)

/-- The words that are drawn from a state with three equal words. -/
theorem wordAfter_of_equal (w b : UInt64) :
    wordAfter ⟨w, b, b, b⟩ 0 = stir w b ∧ wordAfter ⟨w, b, b, b⟩ 1 = stir w 0 ∧
      wordAfter ⟨w, b, b, b⟩ 2 = rotateLeft w 4 ∧
        wordAfter ⟨w, b, b, b⟩ 3 = stir (blend w b) (rotateLeft (blend w b) 45) := by
  have hfirst : next ⟨w, b, b, b⟩ = (stir w b, ⟨w, w, b ^^^ w ^^^ b <<< 17, 0⟩) := by
    simp only [next, stir, xor_xor_cancel_left, UInt64.xor_self, UInt64.xor_zero, rotateLeft_zero]
  have hsecond : ∀ z, next ⟨w, w, z, 0⟩ =
      (stir w 0, ⟨0, z, z ^^^ w ^^^ w <<< 17, rotateLeft w 45⟩) := by
    intro z
    simp only [next, stir, UInt64.xor_comm z w, xor_xor_cancel_left, UInt64.zero_xor,
      UInt64.xor_self]
  have hthird : ∀ z c d, next ⟨0, z, c, d⟩ =
      (rotateLeft d 23, ⟨d ^^^ z, z ^^^ c, c ^^^ z <<< 17, rotateLeft (d ^^^ z) 45⟩) := by
    intro z c d
    simp only [next, UInt64.zero_add, UInt64.add_zero, UInt64.zero_xor, UInt64.xor_zero]
  simp only [wordAfter, hfirst, hsecond, hthird, rotateLeft_rotateLeft, true_and]
  rfl

/-- What two words differ in leaves the lower bits that they share as they are. -/
theorem toNat_xor_mod {a b : UInt64} (h : a.toNat % wordSize 60 = b.toNat % wordSize 60)
    (c : UInt64) : (c ^^^ (a ^^^ b)).toNat % wordSize 60 = c.toNat % wordSize 60 := by
  simp only [wordSize_eq_pow, Nat.pow_eq] at h ⊢
  rw [UInt64.toNat_xor, UInt64.toNat_xor, Nat.xor_mod_two_pow, Nat.xor_mod_two_pow (a := a.toNat),
    h, Nat.xor_self, Nat.xor_zero]

theorem shiftLeft_eq_zero {a : UInt64} (h : a.toNat % wordSize 60 = 0) : a <<< 17 = 0 := by
  have hshift : (17 : UInt64).toNat % 64 = 17 := rfl
  have hzero : (0 : UInt64).toNat = 0 := rfl
  simp only [wordSize, Nat.reduceShiftLeft] at h
  apply UInt64.toNat_inj.1
  rw [UInt64.toNat_shiftLeft, Nat.shiftLeft_eq, hshift, hzero]
  omega

/-- The four upper bits of the second of three equal words reach only those of the blend. -/
theorem blend_xor {k : UInt64} (hk : k <<< 17 = 0) (w b : UInt64) :
    blend w (b ^^^ k) = blend w b ^^^ k := by
  rw [blend, UInt64.shiftLeft_xor, hk, UInt64.xor_zero, UInt64.xor_assoc b k, UInt64.xor_comm k w,
    ← UInt64.xor_assoc b w, UInt64.xor_assoc _ k, UInt64.xor_comm k, ← UInt64.xor_assoc _ _ k,
    ← UInt64.xor_assoc, blend]

/-- The four upper bits of the blend may be changed without a change to the lower bits of the sum
that the first word is made of. -/
theorem exists_blend_eq {w b h : UInt64}
    (hagree : (blend w b).toNat % wordSize 60 = h.toNat % wordSize 60) :
    ∃ b', blend w b' = h ∧ (w + b').toNat % wordSize 60 = (w + b).toNat % wordSize 60 := by
  obtain ⟨k, hk⟩ : ∃ k, k = blend w b ^^^ h := ⟨_, rfl⟩
  refine ⟨b ^^^ k, ?_, ?_⟩
  · have hlow := toNat_xor_mod hagree 0
    rw [UInt64.zero_xor, ← hk] at hlow
    rw [blend_xor (shiftLeft_eq_zero hlow), hk, xor_xor_cancel_left]
  · have hlow := toNat_xor_mod hagree b
    rw [← hk] at hlow
    rw [UInt64.toNat_add, UInt64.toNat_add]
    simp only [wordSize, Nat.reduceShiftLeft] at hlow ⊢
    omega

/-- The four upper bits of a word end above the lower bits of the turned one. -/
theorem toNat_rotateLeft_mod (h : UInt64) :
    (rotateLeft h 45).toNat % wordSize 41 = h.toNat % wordSize 60 / wordSize 19 := by
  have hturn : (rotateLeft h 45).toNat = h.toNat % 524288 * 35184372088832 + h.toNat / 524288 :=
    toNat_rotateLeft (n := 45) (by decide) (by decide) h
  have hsplit : h.toNat % wordSize 60 / wordSize 19 = h.toNat / 524288 % 2199023255552 :=
    Nat.mod_mul_right_div_self h.toNat 524288 2199023255552
  rw [hturn, hsplit]
  simp only [wordSize, Nat.reduceShiftLeft]
  omega

theorem toNat_rotateLeft_div (w : UInt64) :
    (rotateLeft w 4).toNat / wordSize 32 = w.toNat % wordSize 60 / wordSize 28 := by
  have hturn : (rotateLeft w 4).toNat = w.toNat % 1152921504606846976 * 16 +
      w.toNat / 1152921504606846976 := toNat_rotateLeft (n := 4) (by decide) (by decide) w
  have hw := w.toNat_lt
  simp only [wordSize, Nat.reduceShiftLeft]
  rw [hturn]
  omega

/-- A word with given lower and upper bits. -/
theorem exists_toNat_eq {low upper : Nat} (hlow : low < wordSize 60) (hupper : upper < 16) :
    ∃ w : UInt64, w.toNat = low + upper * wordSize 60 := by
  refine ⟨UInt64.ofNat (low + upper * wordSize 60), ?_⟩
  rw [UInt64.toNat_ofNat', Nat.mod_eq_of_lt]
  simp only [wordSize, Nat.reduceShiftLeft, Nat.reducePow] at hlow ⊢
  omega

/-- **The upper halves of the first and the third of four words, and the upper bits of the second
and the fourth, are independent of each other.** -/
theorem exists_halves {x y p q : Nat} (hx : x < wordSize 32) (hy : y < wordSize 32) (hp : p < 2)
    (hq : q < 2) : ∃ g : Generator, g ≠ ⟨0, 0, 0, 0⟩ ∧ g.halfAfter 0 = x ∧
      g.halfAfter 1 / wordSize 31 = p ∧ g.halfAfter 2 = y ∧ g.halfAfter 3 / wordSize 31 = q := by
  -- the first word of the state settles the second and the third word
  have hlow : y * 268435456 + 1 < wordSize 60 := by
    simp only [wordSize, Nat.reduceShiftLeft] at hy ⊢
    omega
  obtain ⟨v, hv, hsecond⟩ := exists_upper_stir 0 hlow hp
  obtain ⟨w, hw⟩ := exists_toNat_eq hlow hv
  -- the lower bits of the others settle the first, and the upper ones are left for the fourth
  obtain ⟨n, hn, hfirst⟩ := exists_half_stir hx w
  obtain ⟨b, hsum⟩ : ∃ b : UInt64, (w + b).toNat % wordSize 60 = n := by
    refine ⟨UInt64.ofNat n - w, ?_⟩
    rw [UInt64.add_comm, UInt64.sub_add_cancel,
      UInt64.toNat_ofNat_of_lt' (Nat.lt_trans hn (by decide)), Nat.mod_eq_of_lt hn]
  have hmod : (blend w b).toNat % wordSize 60 < wordSize 60 := Nat.mod_lt _ (by decide)
  obtain ⟨u, hu, hfourth⟩ := exists_upper_stir
    ((blend w b).toNat % wordSize 60 / wordSize 19) hmod hq
  obtain ⟨h, hh⟩ := exists_toNat_eq hmod hu
  obtain ⟨b', hblend, hsum'⟩ := exists_blend_eq (w := w) (b := b) (h := h)
    (by rw [hh, Nat.add_mul_mod_self_right, Nat.mod_mod])
  obtain ⟨hword₀, hword₁, hword₂, hword₃⟩ := wordAfter_of_equal w b'
  simp only [halfAfter, Nat.div_div_eq_div_mul, wordSize_mul, Nat.reduceAdd]
  refine ⟨⟨w, b', b', b'⟩, fun hzero => ?_, ?_, ?_, ?_, ?_⟩
  · rw [(Generator.mk.inj hzero).1] at hw
    have hzero' : (0 : UInt64).toNat = 0 := rfl
    omega
  · rw [hword₀, hfirst _ (hsum'.trans hsum)]
  · rw [hword₁, hsecond _ _ hw rfl]
  · rw [hword₂, toNat_rotateLeft_div, hw, Nat.add_mul_mod_self_right, Nat.mod_eq_of_lt hlow]
    simp only [wordSize, Nat.reduceShiftLeft]
    omega
  · rw [hword₃, hblend, hfourth _ _ hh]
    rw [toNat_rotateLeft_mod, hh, Nat.add_mul_mod_self_right, Nat.mod_mod]

/-! ## Indices made of halves -/

/-- The index below `n` that is made of two halves of words, the second of which may go unused. -/
def pick (n x y : Nat) : Nat :=
  x * n / wordSize 32 +
    if wordSize 32 - n < x * n % wordSize 32 ∧
      wordSize 32 ≤ x * n % wordSize 32 + y * n / wordSize 32 then 1 else 0

/-- An index is made of the next two halves, and takes both of them where one leaves a doubt. -/
theorem below_eq (g : Generator) (n : Nat) :
    g.below n = (pick n (g.halfAfter 0) (g.halfAfter 1),
      if wordSize 32 - n < g.halfAfter 0 * n % wordSize 32 then g.next.2.next.2 else g.next.2) := by
  have hhalf : ∀ g : Generator, g.nextHalf = (g.halfAfter 0, g.next.2) := by
    intro g
    simp only [nextHalf, halfAfter, wordAfter, UInt64.toNat_shiftRight, Nat.shiftRight_eq_div_pow]
    rfl
  rw [below, hhalf, pick]
  simp only [hhalf, gt_iff_lt, ge_iff_le]
  split
  · next hmore =>
    simp only [hmore, true_and]
    change _ = (_ + (if wordSize 32 ≤ _ + g.next.2.halfAfter 0 * n / wordSize 32 then 1 else 0), _)
    split <;> rfl
  · next hmore =>
    simp only [hmore, false_and, if_false, Nat.add_zero]

theorem pick_of_not {n x : Nat} (h : ¬ wordSize 32 - n < x * n % wordSize 32) (y : Nat) :
    pick n x y = x * n / wordSize 32 := by
  rw [pick, if_neg (fun hmore => h hmore.1), Nat.add_zero]

theorem pick_of_lt {n x y : Nat} (h : x * n % wordSize 32 + y * n / wordSize 32 < wordSize 32) :
    pick n x y = x * n / wordSize 32 := by
  rw [pick, if_neg (fun hmore => Nat.not_lt.2 hmore.2 h), Nat.add_zero]

theorem pick_of_le {n x y : Nat} (hmore : wordSize 32 - n < x * n % wordSize 32)
    (h : wordSize 32 ≤ x * n % wordSize 32 + y * n / wordSize 32) :
    pick n x y = x * n / wordSize 32 + 1 := by
  rw [pick, if_pos ⟨hmore, h⟩]

/-- The first half from which an index is made. -/
theorem exists_first_half {i n : Nat} (hi : i < n) (hn : n ≤ wordSize 32) :
    ∃ x < wordSize 32, ∃ rest < n, x * n = i * wordSize 32 + rest := by
  have hpos : 0 < n := Nat.zero_lt_of_lt hi
  have hceil := Nat.div_add_mod (i * wordSize 32 + (n - 1)) n
  have hmod := Nat.mod_lt (i * wordSize 32 + (n - 1)) hpos
  refine ⟨(i * wordSize 32 + (n - 1)) / n, ?_, n - 1 - (i * wordSize 32 + (n - 1)) % n,
    by omega, ?_⟩
  · rw [Nat.div_lt_iff_lt_mul hpos]
    calc i * wordSize 32 + (n - 1) < i * wordSize 32 + n := by omega
      _ ≤ i * wordSize 32 + wordSize 32 := by omega
      _ = (i + 1) * wordSize 32 := by rw [Nat.succ_mul]
      _ ≤ n * wordSize 32 := Nat.mul_le_mul_right _ hi
      _ = wordSize 32 * n := Nat.mul_comm _ _
  · rw [Nat.mul_comm]
    omega

/-- Every index is made of some half in front of a zero. -/
theorem exists_pick_zero {i n : Nat} (hi : i < n) (hn : n ≤ wordSize 32) :
    ∃ x < wordSize 32, pick n x 0 = i := by
  obtain ⟨x, hx, rest, hrest, hprod⟩ := exists_first_half hi hn
  have hword : wordSize 32 = 4294967296 := rfl
  rw [hword] at hn hprod
  refine ⟨x, hx, ?_⟩
  rw [pick_of_lt] <;> rw [hprod, hword] <;> omega

/-- Every index is made of some half in front of one of which no more than the upper bit counts. -/
theorem exists_pick_upper {i n : Nat} (hi : i < n) (hn : n ≤ wordSize 32) :
    ∃ x < wordSize 32, ∃ bit < 2, ∀ y, y / wordSize 31 = bit → pick n x y = i := by
  obtain ⟨x, hx, rest, hrest, hprod⟩ := exists_first_half hi hn
  have hword : wordSize 32 = 4294967296 := rfl
  have hword' : wordSize 31 = 2147483648 := rfl
  rw [hword] at hn hprod hx
  simp only [hword, hword']
  by_cases hsmall : rest ≤ 2147483648
  · refine ⟨x, hx, 0, by decide, fun y hy => ?_⟩
    have hle : y * n / 4294967296 ≤ y :=
      Nat.div_le_of_le_mul (Nat.mul_comm y n ▸ Nat.mul_le_mul_right y hn)
    rw [pick_of_lt] <;> rw [hprod, hword] <;> omega
  · have hpred : (x - 1) * n + n = x * n := by
      have hx0 : x ≠ 0 := by rintro rfl; omega
      rw [← Nat.succ_mul, Nat.succ_eq_add_one, Nat.sub_add_cancel (Nat.one_le_iff_ne_zero.2 hx0)]
    have hdiv : (x - 1) * n / 4294967296 + 1 = i := by omega
    have hmod : (x - 1) * n % 4294967296 + n = 4294967296 + rest := by omega
    refine ⟨x - 1, by omega, 1, by decide, fun y hy => ?_⟩
    have hge : n / 2 ≤ y * n / 4294967296 := by
      have hy' : 2147483648 * n ≤ y * n := Nat.mul_le_mul_right n (by omega)
      omega
    rw [pick_of_le] <;> rw [hword] <;> omega

/-- **Every pair of indices is drawn, one after the other.** -/
theorem exists_below_below {i n j m : Nat} (hi : i < n) (hn : n ≤ wordSize 32) (hj : j < m)
    (hm : m ≤ wordSize 32) : ∃ g : Generator,
      g ≠ ⟨0, 0, 0, 0⟩ ∧ (g.below n).1 = i ∧ ((g.below n).2.below m).1 = j := by
  obtain ⟨x, hx, p, hp, hpick⟩ := exists_pick_upper hi hn
  by_cases hmore : wordSize 32 - n < x * n % wordSize 32
  · obtain ⟨y, hy, q, hq, hpick'⟩ := exists_pick_upper hj hm
    obtain ⟨g, hne, hhalf₀, hhalf₁, hhalf₂, hhalf₃⟩ := exists_halves hx hy hp hq
    refine ⟨g, hne, ?_, ?_⟩
    · rw [below_eq, hhalf₀, hpick _ hhalf₁]
    · rw [below_eq g, hhalf₀, if_pos hmore, below_eq]
      show pick m (g.halfAfter 2) (g.halfAfter 3) = j
      rw [hhalf₂, hpick' _ hhalf₃]
  · obtain ⟨y, hy, hpick'⟩ := exists_pick_zero hj hm
    obtain ⟨g, hne, hhalf₀, hhalf₁, hhalf₂⟩ := exists_halves_zero hx hy
    have hfirst : pick n x (g.halfAfter 1) = i := by
      rw [pick_of_not hmore, ← pick_of_not hmore (p * wordSize 31)]
      exact hpick _ (Nat.mul_div_cancel p (by decide))
    refine ⟨g, hne, ?_, ?_⟩
    · rw [below_eq, hhalf₀, hfirst]
    · rw [below_eq g, hhalf₀, if_neg hmore, below_eq]
      show pick m (g.halfAfter 1) (g.halfAfter 2) = j
      rw [hhalf₁, hhalf₂, hpick']

end Generator

end Timetable

import Timetable.Config
import Timetable.Proofs.Product

/-!
# Sizes of moves

How much a move does depends on the temperature, which is first multiplied by the factor of the
move.  A factor is any finite number, so the temperature a move gets to see may be of any size and
sign.  The moves that place sections bring it back to where it came from.  The move that swaps
sections does not: it takes fifty times the temperature for a number of swaps, and counts one more.

* `SearchConfig.SizesMoves` says what the sizes of the moves of a configuration should be.
* `SearchConfig.sizesMoves_iff`: they are so exactly if fifty times the factor of a swapping move
  stays below the number of values of a word.  It is enough to look at the highest temperature,
  because the number of swaps grows with it.
-/

set_option autoImplicit false

namespace Timetable

/-! ## Whole parts -/

namespace Binary64

open Float.Model Float.Model.UnpackedFloat

variable {x : Float}

/-- The number of values of a word of 64 bits. -/
theorem unpack_word : (18446744073709551616.0 : Float).toModel.unpack =
    .finite .positive 4503599627370496 12 (by decide) := by
  rfl

theorem unpack_fifty : (50.0 : Float).toModel.unpack =
    .finite .positive 7036874417766400 (-47) (by decide) := by
  rfl

theorem toNat_ofNatClamp (n : Nat) : (UInt64.ofNatClamp n).toNat = min n 18446744073709551615 := by
  rw [UInt64.ofNatClamp]
  split
  · next h =>
    rw [UInt64.toNat_ofNatLT, Nat.min_eq_left]
    exact Nat.le_of_lt_succ h
  · next h =>
    rw [UInt64.toNat_ofNatLT, Nat.min_eq_right]
    · rfl
    · exact Nat.le_of_lt (Nat.lt_of_succ_le (Nat.le_of_not_lt h))

theorem wholePart_eq (x : Float) :
    wholePart x = min (x.toModel.unpack.toInt 0 18446744073709551615).toNat 18446744073709551615 := by
  rw [← toNat_ofNatClamp]
  rfl

theorem wholePart_finite {m : Nat} {e : Int} {hm : 0 < m}
    (hx : x.toModel.unpack = .finite .positive m e hm) :
    wholePart x = min ((m <<< e.toNat) >>> (-e).toNat) 18446744073709551615 := by
  have hshift : (0 - (e - (e.toNat : Int))).toNat = (-e).toNat := by omega
  rw [wholePart_eq, hx]
  simp only [toInt, roundToInt, decreaseExponent, shiftToExponent, Int.sub_zero, hshift,
    mantissa_shiftRight]
  rfl

/-- The whole part of what is not positive is zero. -/
theorem wholePart_eq_zero (hx : place x = 0) : wholePart x = 0 := by
  rw [wholePart_eq]
  rw [place] at hx
  cases h : x.toModel.unpack with
  | notANumber => rfl
  | zero s => rfl
  | infinity s =>
    cases s
    · rfl
    · rw [h] at hx
      cases hx
  | finite s m e hm =>
    cases s
    · rw [toInt, roundToInt]
      dsimp only [Sign.apply]
      omega
    · rw [h, rank] at hx
      omega

/-- **The next number after the whole part fits a word if the number itself is below its size.** -/
theorem wholePart_succ_lt_iff :
    wholePart x + 1 < wordSize 64 ↔ ¬ 18446744073709551616.0 ≤ x := by
  have hword : wordSize 64 = 18446744073709551616 := rfl
  have hplace : place 18446744073709551616.0 = 4895412794951729152 := by
    rw [place, unpack_word]
    rfl
  rw [le_iff_place_le unpack_word, hplace, hword]
  rcases place_cases x with hx | ⟨hx, hplace'⟩ | ⟨m, e, hm, hx, hcanonical, hplace'⟩
  · rw [wholePart_eq_zero hx, hx]
    decide
  · rw [wholePart_eq, hx, hplace']
    decide
  · have hlow := hcanonical.le_exponent
    have hlt := hcanonical.mantissa_lt
    have hfull := hcanonical.full
    rw [wholePart_finite hx, hplace']
    by_cases he : 12 ≤ e
    · have hge : m * 4096 ≤ m <<< e.toNat := by
        rw [Nat.shiftLeft_eq]
        exact Nat.mul_le_mul_left m (Nat.pow_le_pow_right two_pos (by omega : 12 ≤ e.toNat))
      have hzero : (-e).toNat = 0 := by omega
      rw [hzero, Nat.shiftRight_zero]
      exact iff_of_false (by omega) (by omega)
    · have hle : (m <<< e.toNat) >>> (-e).toNat ≤ m * 2048 := by
        rw [Nat.shiftLeft_eq]
        exact Nat.le_trans (Nat.shiftRight_le _ _)
          (Nat.mul_le_mul_left m (Nat.pow_le_pow_right two_pos (by omega : e.toNat ≤ 11)))
      exact iff_of_true (by omega) (by omega)

/-- Only what is not positive is replaced. -/
theorem place_positivePart (x : Float) : place (positivePart x) = place x := by
  rw [positivePart]
  split
  · rfl
  · next h =>
    have hzero : (0.0 : Float).toModel.unpack = .zero .positive := rfl
    rw [gt_iff_lt, lt_iff, hzero] at h
    rcases place_cases x with hx | ⟨hx, -⟩ | ⟨m, e, hm, hx, -, -⟩
    · rw [hx]
      rfl
    · rw [hx] at h
      exact absurd rfl h
    · rw [hx] at h
      exact absurd rfl h

end Binary64

open Binary64

/-! ## Temperatures -/

/-- **The number of swaps is worked out unless fifty times the temperature is too large.** -/
theorem swapCount_eq (t : Float) : swapCount t =
    if 18446744073709551616.0 ≤ 50.0 * positivePart t then .error .overflow
    else .ok (wholePart (50.0 * positivePart t) + 1) := by
  rw [swapCount]
  split
  · next h => exact addWithin_eq_error (Nat.not_lt.1 fun hlt => wholePart_succ_lt_iff.1 hlt h)
  · next h => exact addWithin_eq_ok (wholePart_succ_lt_iff.2 h)

namespace MoveTerm

variable {G : Type} [RandomSource G] {m : MoveTerm} {t : Float}

/-- The temperature that a configured move is made at. -/
def heat (m : MoveTerm) (t : Float) : Float := if m.factor == 1.0 then t else t * m.factor

theorem move_apply {p : Program} (book : Rulebook) (m : MoveTerm) (s : Schedule p) (t : Float)
    (rng : G) : m.move book s t rng = m.kind.move book s (m.heat t) rng := by
  rw [move, heat]
  split <;> rfl

/-- At the highest temperature a move is made at its factor. -/
theorem place_heat_one (m : MoveTerm) : place (m.heat 1.0) = place m.factor := by
  rw [heat]
  split
  · next h => exact (place_eq_of_beq h).symm
  · exact place_one_mul m.factor

/-- No move is made at more than its factor. -/
theorem place_heat_le (h0 : 0.0 ≤ t) (h1 : t ≤ 1.0)
    (hfactor : m.factor.toModel.unpack ≠ .infinity .positive) :
    place (m.heat t) ≤ place m.factor := by
  rw [heat]
  split
  · next h => exact place_eq_of_beq h ▸ place_le_place h1
  · exact place_mul_le h0 h1 hfactor

end MoveTerm

/-! ## The sizes of the moves of a configuration -/

namespace SearchConfig

/-- What the sizes of the moves should be at every temperature from zero to one. -/
structure SizesMoves (c : SearchConfig) : Prop where
  /-- A placing move tries one section at least, and no more than there are. -/
  batchSize : ∀ m ∈ c.moves, ∀ t : Float, 0.0 ≤ t → t ≤ 1.0 → ∀ n,
    1 ≤ batchSize n (m.heat t) ∧ batchSize n (m.heat t) ≤ max n 1
  /-- The number of swaps can be worked out, and there is one at least. -/
  swapCount : ∀ m ∈ c.moves, m.kind = .swapping → ∀ t : Float, 0.0 ≤ t → t ≤ 1.0 →
    ∃ swaps, swapCount (m.heat t) = .ok swaps ∧ 1 ≤ swaps

/-- **The sizes of the moves are as they should be exactly if fifty times the factor of each move
that swaps sections is below the number of values of a word.** -/
theorem sizesMoves_iff (c : SearchConfig) : c.SizesMoves ↔
    ∀ m ∈ c.moves, m.kind = .swapping → ¬ 18446744073709551616.0 ≤ 50.0 * m.factor := by
  constructor
  · intro h m hm hkind hlarge
    -- the highest temperature is the worst one
    obtain ⟨swaps, hswaps, -⟩ :=
      h.swapCount m hm hkind 1.0 (by decide +kernel) (by decide +kernel)
    have hplace : place (50.0 * m.factor) ≤ place (50.0 * positivePart (m.heat 1.0)) :=
      place_mul_le_mul unpack_fifty (by rw [place_positivePart, m.place_heat_one])
    rw [le_iff_place_le unpack_word] at hlarge
    rw [swapCount_eq, if_pos ((le_iff_place_le unpack_word).2 (hlarge.trans hplace))] at hswaps
    cases hswaps
  · refine fun h => ⟨fun m _ t _ _ n => ⟨one_le_batchSize n _, batchSize_le n _⟩, ?_⟩
    intro m hm hkind t h0 h1
    have hsmall := h m hm hkind
    rw [le_iff_place_le unpack_word] at hsmall
    have hfactor : m.factor.toModel.unpack ≠ .infinity .positive := fun hinf =>
      hsmall ((place_le _).trans (place_mul_infinity unpack_fifty hinf).ge)
    have hplace : place (50.0 * positivePart (m.heat t)) ≤ place (50.0 * m.factor) :=
      place_mul_le_mul unpack_fifty
        ((place_positivePart _).trans_le (MoveTerm.place_heat_le h0 h1 hfactor))
    rw [swapCount_eq, if_neg fun hle => hsmall (((le_iff_place_le unpack_word).1 hle).trans hplace)]
    exact ⟨_, rfl, Nat.le_add_left 1 _⟩

end SearchConfig

namespace Seething

/-- Two moves, the second of which swaps sections at so many times the temperature. -/
def config (factor : Float) : SearchConfig where
  terms := [{ metric := .sectionsScheduled }]
  moves := [{ kind := .greedy, factor := -3.0 }, { kind := .swapping, factor }]

end Seething

open Seething in
theorem sizesMoves_iff_seething : (config 2.5).validate = .ok () ∧ (config 2.5).SizesMoves := by
  refine ⟨by rfl, (SearchConfig.sizesMoves_iff _).2 fun m hm hkind => ?_⟩
  rcases List.mem_cons.1 hm with rfl | hm
  · cases hkind
  · rw [List.mem_singleton.1 hm]
    decide +kernel

open Seething in
/-- A factor may be a finite number and still be so large that the swaps cannot be counted; then the
move is given up wherever it is made. -/
theorem not_sizesMoves_seething : (config 1000000000000000000.0).validate = .ok () ∧
    swapCount (MoveTerm.heat ⟨.swapping, 1000000000000000000.0⟩ 1.0) = .error .overflow ∧
      (∀ {G : Type} [RandomSource G] (p : Program) (book : Rulebook) (s : Schedule p) (rng : G),
        MoveTerm.move book ⟨.swapping, 1000000000000000000.0⟩ s 1.0 rng = .error .overflow) ∧
          ¬ (config 1000000000000000000.0).SizesMoves := by
  have hcount : swapCount (MoveTerm.heat ⟨.swapping, 1000000000000000000.0⟩ 1.0) =
    .error .overflow := by decide +kernel
  refine ⟨by rfl, hcount, fun {G} _ p book s rng => ?_, fun h => ?_⟩
  · rw [MoveTerm.move_apply, MoveKind.move, Move.swap, hcount]
    rfl
  · obtain ⟨swaps, hswaps, -⟩ := h.swapCount _ (List.mem_cons_of_mem _ List.mem_cons_self) rfl 1.0
      (by decide +kernel) (by decide +kernel)
    cases hcount.symm.trans hswaps

end Timetable

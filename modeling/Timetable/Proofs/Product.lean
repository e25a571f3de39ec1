import Timetable.Proofs.Ratio

/-!
# Products grow with their factors

A product of two positive binary64 numbers is rounded to the nearest number, and may be too small or
too large for the format.  It still grows with each of its factors, because rounding moves a mantissa
by half a unit of its last place at most.

Numbers are compared by their `place` among the positive ones, with infinity at the end; for what is
unpacked this is the `rank`.  The rank of a product is known before it is known whether a mantissa is
carried over to the next power of two, or whether the product is infinite (`rank_pack_round`).

* `Binary64.roundedRank_mono`: the greater of two values is rounded to the greater number.
* `Binary64.place_mul_le_mul`: a product grows with its factors.
* `Binary64.place_one_mul`: multiplying by one changes nothing.
* `Binary64.place_mul_le`: a factor from zero to one makes no finite number greater.
-/

set_option autoImplicit false

namespace Timetable

namespace Binary64

open Float.Model Float.Model.UnpackedFloat

/-! ## Numbers of the format -/

/-- The mantissa and the exponent of a finite number are in the range of the format. -/
structure IsCanonical (m : Nat) (e : Int) : Prop where
  mantissa_lt : m < 9007199254740992
  le_exponent : -1074 ≤ e
  exponent_le : e ≤ 971
  /-- A mantissa is shorter only if the exponent cannot be less. -/
  full : 4503599627370496 ≤ m ∨ e = -1074

/-- What is unpacked is in the range of the format. -/
theorem isCanonical_of_unpack {x : Float.Model} {s : Sign} {m : Nat} {e : Int} {hpos : 0 < m}
    (h : x.unpack = .finite s m e hpos) : IsCanonical m e := by
  rw [Float.Model.unpack, UnpackedFloat.unpack] at h
  dsimp only at h
  have hm : (@unpackMantissa Format.binary64 x.toBits.toBitVec).toNat < 4503599627370496 :=
    BitVec.isLt _
  generalize @unpackExponent Format.binary64 x.toBits.toBitVec = exponent at h
  have he : exponent.toNat < 2048 := exponent.isLt
  have hbias : (Format.binary64.exponentBias : Int) +
    Format.binary64.mantissaBitsWithoutImplicit = 1075 := rfl
  split at h
  · split at h <;> cases h
  · next hones =>
    have hne : exponent.toNat ≠ 2047 := fun h2047 => hones (BitVec.eq_of_toNat_eq h2047)
    split at h
    · next hzero =>
      split at h
      · cases h
      · simp only [finite.injEq] at h
        obtain ⟨-, rfl, rfl⟩ := h
        rw [hzero, hbias]
        exact ⟨by omega, by simp, by simp, .inr (by simp)⟩
    · next hzero =>
      have hne0 : exponent.toNat ≠ 0 := fun h0 => hzero (BitVec.eq_of_toNat_eq h0)
      simp only [finite.injEq, hbias] at h
      obtain ⟨-, rfl, rfl⟩ := h
      have hfull : (1#1 ++ @unpackMantissa Format.binary64 x.toBits.toBitVec).toNat =
          4503599627370496 + (@unpackMantissa Format.binary64 x.toBits.toBitVec).toNat := by
        rw [BitVec.toNat_append, ← Nat.shiftLeft_add_eq_or_of_lt (BitVec.isLt _)]
        rfl
      rw [hfull]
      exact ⟨by omega, by omega, by omega, .inl (by omega)⟩

/-- The place of a number among the positive ones; all others have rank zero. -/
def rank : UnpackedFloat → Nat
  | .finite .positive m e _ => (e + 1074).toNat * 4503599627370496 + m
  | .infinity .positive => 9218868437227405312
  | _ => 0

/-! ## Packing -/

/-- Packing a number with a short mantissa loses nothing. -/
theorem unpack_pack_subnormal {s : Sign} {m : Nat} (hpos : 0 < m) (hm : m < 4503599627370496) :
    (Float.Model.pack (.finite s m (-1074) hpos)).unpack = .finite s m (-1074) hpos := by
  have hlog : m.log2 < 52 := (Nat.log2_lt (Nat.ne_of_gt hpos)).2 hm
  have hpacked : UnpackedFloat.pack Format.binary64 (.finite s m (-1074) hpos) =
      packComponents Format.binary64 s 0#_ (BitVec.ofNat 52 m) := by
    simp only [UnpackedFloat.pack]
    rw [if_neg (by decide), if_neg]
    show ¬ m.log2 + 1 = 53
    omega
  have hmantissa : (BitVec.ofNat 52 m).toNat = m := by
    rw [BitVec.toNat_ofNat, Nat.mod_eq_of_lt hm]
  have hne : BitVec.ofNat 52 m ≠ 0#52 := fun h => by
    rw [← hmantissa, h] at hpos
    exact absurd hpos (by decide)
  rw [Float.Model.pack, Float.Model.unpack]
  simp only [hpacked, UnpackedFloat.unpack, unpackSign_packComponents,
    unpackExponent_packComponents, unpackMantissa_packComponents, Sign.ofBitVec_toBitVec, hmantissa]
  rw [if_neg (by decide), if_pos trivial, dif_neg hne]
  rfl

/-- What is too large is packed as infinity. -/
theorem unpack_pack_overflow {s : Sign} {m : Nat} {e : Int} (hpos : 0 < m) (he : 972 ≤ e) :
    (Float.Model.pack (.finite s m e hpos)).unpack = .infinity s := by
  have hpacked : UnpackedFloat.pack Format.binary64 (.finite s m e hpos) =
      packedInfinity Format.binary64 s := by
    simp only [UnpackedFloat.pack]
    rw [if_pos]
    show 2048 ≤ (e + 1023 + 52).toNat + 1
    omega
  rw [Float.Model.pack, Float.Model.unpack]
  simp only [hpacked]
  cases s <;> rfl

/-- The rank of a positive number that is packed, be it too large or not. -/
theorem rank_pack {m : Nat} {e : Int} (hpos : 0 < m) (hm : m < 9007199254740992)
    (he : -1074 ≤ e) (hfull : 4503599627370496 ≤ m ∨ e = -1074) :
    rank (Float.Model.pack (.finite .positive m e hpos)).unpack =
      min ((e + 1074).toNat * 4503599627370496 + m) 9218868437227405312 := by
  by_cases hover : 972 ≤ e
  · rw [unpack_pack_overflow hpos hover, rank, Nat.min_eq_right]
    omega
  · have hrank : rank (.finite .positive m e hpos) = (e + 1074).toNat * 4503599627370496 + m := rfl
    by_cases hshort : m < 4503599627370496
    · obtain rfl : e = -1074 := by omega
      rw [unpack_pack_subnormal hpos hshort, hrank, Nat.min_eq_left]
      omega
    · have hlog : m.log2 = 52 := (Nat.log2_eq_iff (Nat.ne_of_gt hpos)).2 (by norm_num; omega)
      rw [unpack_pack_normal hpos ⟨hlog, he, by omega⟩, hrank, Nat.min_eq_left]
      omega

/-- What is packed with a negative sign is not positive. -/
theorem rank_pack_negative {m : Nat} {e : Int} (hpos : 0 < m) :
    rank (Float.Model.pack (.finite .negative m e hpos)).unpack = 0 := by
  have hsign : unpackSign (UnpackedFloat.pack Format.binary64 (.finite .negative m e hpos)) = 1#1 := by
    simp only [UnpackedFloat.pack]
    split
    · exact unpackSign_packComponents _ _ _
    · split <;> exact unpackSign_packComponents _ _ _
  have hnegative : Sign.ofBitVec 1#1 = .negative := rfl
  rw [Float.Model.pack, Float.Model.unpack]
  simp only [UnpackedFloat.unpack, hsign, hnegative]
  split
  · split <;> rfl
  · split
    · split <;> rfl
    · rfl

/-! ## Rounding a mantissa -/

/-- A mantissa without its last `k` bits, rounded. -/
def rounded (m k : Nat) : Nat := ((⟨m, false, false⟩ : ExtendedMantissa) >>> k).roundedMantissa

theorem shiftRight_add (em : ExtendedMantissa) (j k : Nat) : em >>> (j + k) = em >>> j >>> k := by
  induction k with
  | zero => rfl
  | succ k ih => rw [← Nat.add_assoc, shiftRight_succ, ih, shiftRight_succ]

/-- Bits at the end that are not set do not matter. -/
theorem rounded_shiftLeft (m d k : Nat) : rounded (m <<< d) (d + k) = rounded m k := by
  rw [rounded, rounded, shiftRight_add, shiftRight_shiftLeft]

theorem rounded_zero (m : Nat) : rounded m 0 = m := rfl

/-- Whether any of the bits that were shifted away was set. -/
theorem residue_shiftRight (m k : Nat) :
    (((⟨m, false, false⟩ : ExtendedMantissa) >>> k).roundBit ||
      ((⟨m, false, false⟩ : ExtendedMantissa) >>> k).stickyBit) = (m % 2 ^ k != 0) := by
  induction k with
  | zero =>
    rw [Nat.pow_zero, Nat.mod_one]
    rfl
  | succ k ih =>
    rw [shiftRight_succ, ExtendedMantissa.shiftRightOne]
    dsimp only
    rw [ih, mantissa_shiftRight, Nat.mod_pow_succ, Nat.shiftRight_eq_div_pow]
    rcases Nat.mod_two_eq_zero_or_one (m / 2 ^ k) with h | h
    · simp [h]
    · simp [h]

theorem shiftRight_succ_eq (m k : Nat) : (⟨m, false, false⟩ : ExtendedMantissa) >>> (k + 1) =
    ⟨m / 2 ^ k / 2, m / 2 ^ k % 2 != 0, m % 2 ^ k != 0⟩ := by
  rw [shiftRight_succ, ExtendedMantissa.shiftRightOne, residue_shiftRight, mantissa_shiftRight,
    Nat.shiftRight_eq_div_pow]

/-- The bits behind the last place decide whether a mantissa is rounded up. -/
theorem roundedMantissa_cases (v : Nat) (round sticky : Bool) :
    round = false ∧ ExtendedMantissa.roundedMantissa ⟨v, round, sticky⟩ = v ∨
    round = true ∧ sticky = false ∧
      (ExtendedMantissa.roundedMantissa ⟨v, round, sticky⟩ = v ∨
        ExtendedMantissa.roundedMantissa ⟨v, round, sticky⟩ = v + 1) ∨
    round = true ∧ sticky = true ∧
      ExtendedMantissa.roundedMantissa ⟨v, round, sticky⟩ = v + 1 := by
  cases round <;> cases sticky
  · exact .inl ⟨rfl, rfl⟩
  · exact .inl ⟨rfl, rfl⟩
  · have heven : ExtendedMantissa.roundedMantissa ⟨v, true, false⟩ = v + v % 2 := rfl
    exact .inr (.inl ⟨rfl, rfl, by omega⟩)
  · exact .inr (.inr ⟨rfl, rfl, rfl⟩)

/-- What is rounded to `v` or to `v + 1` lies between them, in units of half the last place. -/
theorem roundedMantissa_bounds {v half rem unit : Nat} (hhalf : half < 2) (hrem : rem < unit) :
    2 * (unit * (2 * v + half) + rem) ≤
        (2 * ExtendedMantissa.roundedMantissa ⟨v, half != 0, rem != 0⟩ + 1) * (unit * 2) ∧
      2 * ExtendedMantissa.roundedMantissa ⟨v, half != 0, rem != 0⟩ * (unit * 2) ≤
        2 * (unit * (2 * v + half) + rem) + unit * 2 := by
  have hcases := roundedMantissa_cases v (half != 0) (rem != 0)
  generalize ExtendedMantissa.roundedMantissa ⟨v, half != 0, rem != 0⟩ = r at hcases ⊢
  simp only [bne_eq_false_iff_eq, bne_iff_ne] at hcases
  rcases hcases with ⟨rfl, rfl⟩ | ⟨hne, rfl, rfl | rfl⟩ | ⟨hne, -, rfl⟩
  · constructor <;> ring_nf <;> omega
  all_goals
    obtain rfl : half = 1 := by omega
    constructor <;> ring_nf <;> omega

/-- **Rounding moves a mantissa by half a unit of its last place at most.** -/
theorem rounded_bounds (m k : Nat) : 2 * m ≤ (2 * rounded m k + 1) * 2 ^ k ∧
    2 * rounded m k * 2 ^ k ≤ 2 * m + 2 ^ k := by
  cases k with
  | zero =>
    rw [rounded_zero]
    omega
  | succ k =>
    have hm : 2 ^ k * (2 * (m / 2 ^ k / 2) + m / 2 ^ k % 2) + m % 2 ^ k = m := by
      rw [Nat.div_add_mod, Nat.div_add_mod]
    have hbounds := roundedMantissa_bounds (v := m / 2 ^ k / 2) (Nat.mod_lt (m / 2 ^ k) two_pos)
      (Nat.mod_lt m (Nat.two_pow_pos k))
    rw [hm] at hbounds
    rwa [rounded, shiftRight_succ_eq, Nat.pow_succ]

/-- The greater mantissa is rounded to the greater one. -/
theorem rounded_mono {m m' : Nat} (k : Nat) (h : m ≤ m') : rounded m k ≤ rounded m' k := by
  rcases Nat.eq_or_lt_of_le h with rfl | hlt
  · exact Nat.le_refl _
  · have hm := (rounded_bounds m k).2
    have hm' := (rounded_bounds m' k).1
    by_contra hr
    -- the middle above `rounded m' k` would be at most `m`, and at least `m'`
    have hstep : (2 * rounded m' k + 1) * 2 ^ k + 2 ^ k ≤ 2 * rounded m k * 2 ^ k := by
      rw [← Nat.succ_mul]
      exact Nat.mul_le_mul_right _ (by omega)
    omega

/-! ## Rounding a value -/

/-- The exponent of the number that `m * 2 ^ e` is rounded to, before a carry. -/
def exponentFor (m : Nat) (e : Int) : Int := max (m.log2 - 52 + e) (-1074)

theorem shiftToTargetExponent_exact {m k : Nat} {e f : Int} (hf : exponentFor m e = f)
    (hk : e + k = f) : shiftToTargetExponent Format.binary64 m e .exact =
      ((⟨m, false, false⟩ : ExtendedMantissa) >>> k, f) := by
  have htarget : Format.binary64.targetExponent (totalExponent m e) = f := by
    rw [← hf, exponentFor]
    show max ((m.log2 : Int) + 1 + e - 53) (-1074) = _
    omega
  have hshift : (f - e).toNat = k := by omega
  simp only [shiftToTargetExponent, htarget, shiftToExponent, hshift, hk]
  rfl

/-- What is rounded has 53 bits, or is the next power of two. -/
theorem rounded_le {m k : Nat} (h : m.log2 ≤ 52 + k) : rounded m k ≤ 9007199254740992 := by
  have hm : m ≤ 9007199254740992 <<< k := by
    rw [Nat.shiftLeft_eq]
    refine Nat.le_of_lt (Nat.lt_of_lt_of_le Nat.lt_log2_self ?_)
    exact Nat.pow_add 2 53 k ▸ Nat.pow_le_pow_right two_pos (by omega)
  exact Nat.le_trans (rounded_mono k hm) (rounded_shiftLeft 9007199254740992 k 0).le

theorem le_rounded {m k : Nat} (hpos : 0 < m) (h : 52 + k ≤ m.log2) :
    4503599627370496 ≤ rounded m k := by
  have hm : 4503599627370496 <<< k ≤ m := by
    rw [Nat.shiftLeft_eq]
    refine Nat.le_trans ?_ (Nat.log2_self_le (Nat.ne_of_gt hpos))
    exact Nat.pow_add 2 52 k ▸ Nat.pow_le_pow_right two_pos h
  exact Nat.le_trans (rounded_shiftLeft 4503599627370496 k 0).ge (rounded_mono k hm)

/-- A mantissa that needs no carry is not shifted again. -/
theorem exponentFor_rounded {r : Nat} {f : Int} (hr : r < 9007199254740992) (hf : -1074 ≤ f)
    (hfull : 4503599627370496 ≤ r ∨ f = -1074) : exponentFor r f = f := by
  rw [exponentFor]
  rcases Nat.eq_zero_or_pos r with rfl | hpos
  · rw [Nat.log2_zero]
    omega
  · have hlog : r.log2 < 53 := (Nat.log2_lt (Nat.ne_of_gt hpos)).2 hr
    have hlong : 4503599627370496 ≤ r → 52 ≤ r.log2 := fun h =>
      (Nat.le_log2 (Nat.ne_of_gt hpos)).2 h
    omega

/-- Rounding, if it is known what a carry makes of the rounded mantissa. -/
theorem roundWithAccuracy_eq_dite {s : Sign} {m k r : Nat} {e f g : Int} (hf : exponentFor m e = f)
    (hk : e + k = f) (hcarry : shiftToTargetExponent Format.binary64 (rounded m k) f .exact =
      (⟨r, false, false⟩, g)) : roundWithAccuracy Format.binary64 s m e .exact =
        if h : r = 0 then .zero s else .finite s r g (Nat.pos_of_ne_zero h) := by
  rw [rounded] at hcarry
  simp only [roundWithAccuracy, shiftToTargetExponent_exact hf hk, hcarry]

/-- **The rank of what a value is rounded to.**  A mantissa that is carried to the next power of two
needs no attention, nor does a number that is too large, except that there is nothing beyond
infinity. -/
theorem rank_pack_round {m k : Nat} {e f : Int} (hpos : 0 < m) (hf : exponentFor m e = f)
    (hk : e + k = f) :
    rank (Float.Model.pack (roundWithAccuracy Format.binary64 .positive m e .exact)).unpack =
      min ((f + 1074).toNat * 4503599627370496 + rounded m k) 9218868437227405312 := by
  have hmax : max ((m.log2 : Int) - 52 + e) (-1074) = f := hf
  have hle : rounded m k ≤ 9007199254740992 := rounded_le (by omega)
  have hfull : 4503599627370496 ≤ rounded m k ∨ f = -1074 := by
    by_cases hmin : f = -1074
    · exact .inr hmin
    · exact .inl (le_rounded hpos (by omega))
  rcases Nat.lt_or_eq_of_le hle with hlt | heq
  · have hcarry := shiftToTargetExponent_exact (k := 0)
      (exponentFor_rounded hlt (by omega) hfull) (Int.add_zero f)
    rw [roundWithAccuracy_eq_dite hf hk hcarry]
    split
    · next hzero =>
      obtain rfl : f = -1074 := by omega
      rw [hzero]
      rfl
    · exact rank_pack _ hlt (by omega) hfull
  · have hnext : exponentFor 9007199254740992 f = f + 1 := by
      have hlog : Nat.log2 9007199254740992 = 53 := by decide
      rw [exponentFor, hlog]
      omega
    have hcarry := shiftToTargetExponent_exact (k := 1) hnext rfl
    rw [← heq] at hcarry
    rw [roundWithAccuracy_eq_dite (r := 4503599627370496) hf hk (hcarry.trans (by rw [heq]; rfl)),
      dif_neg (by decide), rank_pack _ (by decide) (by omega) (.inl (Nat.le_refl _)), heq]
    omega

/-- The rank of the number that `m * 2 ^ e` is rounded to. -/
def roundedRank (m : Nat) (e : Int) : Nat :=
  rank (Float.Model.pack (roundWithAccuracy Format.binary64 .positive m e .exact)).unpack

/-- The number does not depend on where the mantissa ends. -/
theorem roundedRank_shiftLeft {m : Nat} {e : Int} (hpos : 0 < m) (hle : e ≤ exponentFor m e)
    (d : Nat) : roundedRank (m <<< d) (e - d) = roundedRank m e := by
  obtain ⟨k, hk⟩ : ∃ k : Nat, e + k = exponentFor m e := ⟨(exponentFor m e - e).toNat, by omega⟩
  have hsame : exponentFor (m <<< d) (e - d) = exponentFor m e := by
    rw [exponentFor, exponentFor, log2_shiftLeft (Nat.ne_of_gt hpos)]
    omega
  rw [roundedRank, roundedRank, rank_pack_round hpos rfl hk,
    rank_pack_round (k := d + k) (Nat.shiftLeft_pos_iff.2 hpos) hsame (by omega), rounded_shiftLeft]

/-- **The greater value is rounded to the greater number.** -/
theorem roundedRank_mono {m m' : Nat} {e : Int} (hpos : 0 < m) (hle : e ≤ exponentFor m e)
    (h : m ≤ m') : roundedRank m e ≤ roundedRank m' e := by
  have hlog : m.log2 ≤ m'.log2 := by
    rw [Nat.le_log2 (by omega)]
    exact Nat.le_trans (Nat.log2_self_le (Nat.ne_of_gt hpos)) h
  obtain ⟨f, hf⟩ : ∃ f, exponentFor m e = f := ⟨_, rfl⟩
  obtain ⟨f', hf'⟩ : ∃ f', exponentFor m' e = f' := ⟨_, rfl⟩
  have hmax : max ((m.log2 : Int) - 52 + e) (-1074) = f := hf
  have hmax' : max ((m'.log2 : Int) - 52 + e) (-1074) = f' := hf'
  obtain ⟨k, hk⟩ : ∃ k : Nat, e + k = f := ⟨(f - e).toNat, by omega⟩
  obtain ⟨k', hk'⟩ : ∃ k' : Nat, e + k' = f' := ⟨(f' - e).toNat, by omega⟩
  rw [roundedRank, roundedRank, rank_pack_round hpos hf hk, rank_pack_round (by omega) hf' hk']
  refine min_le_min_right _ ?_
  rcases Int.lt_or_eq_of_le (show f ≤ f' by omega) with hlt | rfl
  · -- a carry takes the lesser mantissa no further than the greater exponent
    have hr : rounded m k ≤ 9007199254740992 := rounded_le (by omega)
    have hr' : 4503599627370496 ≤ rounded m' k' := le_rounded (by omega) (by omega)
    omega
  · obtain rfl : k = k' := by omega
    exact Nat.add_le_add_left (rounded_mono k h) _

/-! ## Products -/

/-- The product of two mantissas is long enough for its exponent. -/
theorem IsCanonical.le_exponentFor_mul {m n : Nat} {e g : Int} (h : IsCanonical m e)
    (h' : IsCanonical n g) (hm : 0 < m) (hn : 0 < n) : g + e ≤ exponentFor (n * m) (g + e) := by
  have hlow := h.le_exponent
  have hlow' := h'.le_exponent
  rw [exponentFor]
  by_cases hlong : 4503599627370496 ≤ n * m
  · have hlog : 52 ≤ (n * m).log2 := (Nat.le_log2 (by omega)).2 hlong
    omega
  · have hfull := h.full.resolve_left fun hm' =>
      hlong (Nat.le_trans hm' (Nat.le_mul_of_pos_left m hn))
    have hfull' := h'.full.resolve_left fun hn' =>
      hlong (Nat.le_trans hn' (Nat.le_mul_of_pos_right n hm))
    omega

/-- What is of greater rank is greater, written with the exponent of the other number. -/
theorem IsCanonical.exists_le_shiftLeft {m m' : Nat} {e e' : Int} (h : IsCanonical m e)
    (h' : IsCanonical m' e') (hle : (e + 1074).toNat * 4503599627370496 + m ≤
      (e' + 1074).toNat * 4503599627370496 + m') : ∃ d : Nat, e' = e + d ∧ m ≤ m' <<< d := by
  have hlow := h.le_exponent
  have hlow' := h'.le_exponent
  have hlt := h.mantissa_lt
  have hlt' := h'.mantissa_lt
  have hfull := h.full
  have hfull' := h'.full
  refine ⟨(e' - e).toNat, by omega, ?_⟩
  rcases Nat.eq_zero_or_pos (e' - e).toNat with hd | hd
  · rw [hd]
    show m ≤ m'
    omega
  · obtain ⟨d, hd⟩ := Nat.exists_eq_succ_of_ne_zero (Nat.ne_of_gt hd)
    rw [hd, Nat.succ_eq_add_one, Nat.add_comm, Nat.shiftLeft_add, Nat.shiftLeft_eq (m' <<< 1)]
    have hdouble : m ≤ m' <<< 1 := by
      rw [Nat.shiftLeft_eq]
      omega
    exact Nat.le_trans hdouble (Nat.le_mul_of_pos_right _ (Nat.two_pow_pos d))

theorem roundedRank_mul_mono {m m' n : Nat} {e e' g : Int} (h : IsCanonical m e)
    (h' : IsCanonical m' e') (hn : IsCanonical n g) (hm : 0 < m) (hm' : 0 < m') (hpos : 0 < n)
    (hle : (e + 1074).toNat * 4503599627370496 + m ≤ (e' + 1074).toNat * 4503599627370496 + m') :
    roundedRank (n * m) (g + e) ≤ roundedRank (n * m') (g + e') := by
  obtain ⟨d, rfl, hd⟩ := h.exists_le_shiftLeft h' hle
  rw [← roundedRank_shiftLeft (Nat.mul_pos hpos hm') (h'.le_exponentFor_mul hn hm' hpos) d,
    show g + (e + d) - d = g + e by omega]
  refine roundedRank_mono (Nat.mul_pos hpos hm) (h.le_exponentFor_mul hn hm hpos) ?_
  rw [Nat.shiftLeft_eq, Nat.mul_assoc, ← Nat.shiftLeft_eq]
  exact Nat.mul_le_mul_left n hd

/-! ## Factors and their products -/

/-- The place of a number among the positive ones; all others have place zero. -/
def place (x : Float) : Nat := rank x.toModel.unpack

variable {x y z : Float}

/-- A number is not positive, or infinite, or has a place by its exponent and its mantissa. -/
theorem place_cases (x : Float) : place x = 0 ∨
    x.toModel.unpack = .infinity .positive ∧ place x = 9218868437227405312 ∨
    ∃ m e hm, x.toModel.unpack = .finite .positive m e hm ∧ IsCanonical m e ∧
      place x = (e + 1074).toNat * 4503599627370496 + m := by
  rw [place]
  cases h : x.toModel.unpack with
  | notANumber => exact .inl rfl
  | zero s => exact .inl rfl
  | infinity s =>
    cases s
    · exact .inl rfl
    · exact .inr (.inl ⟨rfl, rfl⟩)
  | finite s m e hm =>
    cases s
    · exact .inl rfl
    · exact .inr (.inr ⟨m, e, hm, rfl, isCanonical_of_unpack h, rfl⟩)

/-- Only infinity is at the end. -/
theorem IsCanonical.place_lt {m : Nat} {e : Int} (h : IsCanonical m e) :
    (e + 1074).toNat * 4503599627370496 + m < 9218868437227405312 := by
  have hlt := h.mantissa_lt
  have hhigh := h.exponent_le
  omega

theorem place_le (x : Float) : place x ≤ 9218868437227405312 := by
  rcases place_cases x with hx | ⟨-, hx⟩ | ⟨m, e, -, -, hcanonical, hx⟩
  · omega
  · omega
  · exact hx ▸ Nat.le_of_lt hcanonical.place_lt

theorem unpack_mul (x y : Float) : (x * y).toModel.unpack = (Float.Model.pack
    (UnpackedFloat.mul Format.binary64 x.toModel.unpack y.toModel.unpack)).unpack :=
  rfl

theorem unpack_mul_comm (x y : Float) : (x * y).toModel.unpack = (y * x).toModel.unpack := by
  have hsign : ∀ s t : Sign, s * t = t * s := by
    intro s t
    cases s <;> cases t <;> rfl
  rw [unpack_mul, unpack_mul]
  cases x.toModel.unpack <;> cases y.toModel.unpack <;>
    simp only [UnpackedFloat.mul, hsign, Nat.mul_comm, Int.add_comm]

theorem unpack_pack_notANumber : (Float.Model.pack .notANumber).unpack = .notANumber := rfl

theorem unpack_pack_zero (s : Sign) : (Float.Model.pack (.zero s)).unpack = .zero s := by
  cases s <;> rfl

theorem unpack_pack_infinity (s : Sign) :
    (Float.Model.pack (.infinity s)).unpack = .infinity s := by
  cases s <;> rfl

/-- What is rounded with a negative sign is not positive. -/
theorem rank_pack_round_negative (m : Nat) (e : Int) :
    rank (Float.Model.pack (roundWithAccuracy Format.binary64 .negative m e .exact)).unpack = 0 := by
  rw [roundWithAccuracy]
  dsimp only
  split
  · rw [unpack_pack_zero]
    rfl
  · exact rank_pack_negative _

section Positive

variable {n : Nat} {g : Int} {hn : 0 < n} (hy : y.toModel.unpack = .finite .positive n g hn)

include hy

theorem place_mul_finite {m : Nat} {e : Int} {hm : 0 < m}
    (hx : x.toModel.unpack = .finite .positive m e hm) :
    place (y * x) = roundedRank (n * m) (g + e) := by
  rw [place, unpack_mul, hy, hx]
  rfl

theorem place_mul_infinity (hx : x.toModel.unpack = .infinity .positive) :
    place (y * x) = 9218868437227405312 := by
  have hmul : UnpackedFloat.mul Format.binary64 (.finite .positive n g hn) (.infinity .positive) =
    .infinity .positive := rfl
  rw [place, unpack_mul, hy, hx, hmul, unpack_pack_infinity]
  rfl

/-- A positive number times one that is not positive is not positive. -/
theorem place_mul_eq_zero (hx : place x = 0) : place (y * x) = 0 := by
  rw [place] at hx
  rw [place, unpack_mul, hy]
  cases h : x.toModel.unpack with
  | notANumber =>
    simp only [UnpackedFloat.mul, unpack_pack_notANumber]
    rfl
  | zero s =>
    rw [UnpackedFloat.mul, unpack_pack_zero]
    rfl
  | infinity s =>
    cases s
    · rw [UnpackedFloat.mul, unpack_pack_infinity]
      rfl
    · rw [h] at hx
      cases hx
  | finite s m e hm =>
    cases s
    · exact rank_pack_round_negative _ _
    · rw [h, rank] at hx
      omega

/-- **A product grows with its factors.** -/
theorem place_mul_le_mul (h : place x ≤ place z) : place (y * x) ≤ place (y * z) := by
  rcases place_cases x with hx | ⟨hx, hplace⟩ | ⟨m, e, hm, hx, hcanonical, hplace⟩
  · rw [place_mul_eq_zero hy hx]
    exact Nat.zero_le _
  all_goals rcases place_cases z with hz | ⟨hz, hplace'⟩ | ⟨m', e', hm', hz, hcanonical', hplace'⟩
  · omega
  · rw [place_mul_infinity hy hx, place_mul_infinity hy hz]
  · have := hcanonical'.place_lt
    omega
  · omega
  · rw [place_mul_infinity hy hz]
    exact place_le _
  · rw [place_mul_finite hy hx, place_mul_finite hy hz]
    rw [hplace, hplace'] at h
    exact roundedRank_mul_mono hcanonical hcanonical' (isCanonical_of_unpack hy) hm hm' hn h

end Positive

/-- Multiplying by one changes nothing. -/
theorem place_one_mul (x : Float) : place (1.0 * x) = place x := by
  rcases place_cases x with hx | ⟨hx, hplace⟩ | ⟨m, e, hm, hx, hcanonical, hplace⟩
  · rw [place_mul_eq_zero unpack_one hx, hx]
  · rw [place_mul_infinity unpack_one hx, hplace]
  · have hexponent : exponentFor m e = e :=
      exponentFor_rounded hcanonical.mantissa_lt hcanonical.le_exponent hcanonical.full
    have hproduct : 4503599627370496 * m = m <<< 52 := by
      rw [Nat.shiftLeft_eq, Nat.mul_comm]
    rw [place_mul_finite unpack_one hx, hproduct, Int.add_comm,
      show e + -52 = e - (52 : Nat) from rfl, roundedRank_shiftLeft hm hexponent.ge, roundedRank,
      rank_pack_round hm hexponent (Int.add_zero e), rounded_zero, hplace]
    exact min_eq_left hcanonical.place_lt.le

/-! ## The order of numbers -/

theorem lt_iff : x < y ↔ UnpackedFloat.lt x.toModel.unpack y.toModel.unpack = true := by
  show Float.lt x y = true ↔ _
  rw [Float.lt, decide_eq_true_iff]
  rfl

/-- **A positive finite number is at most another one if its place is.** -/
theorem le_iff_place_le {m : Nat} {e : Int} {hm : 0 < m}
    (hx : x.toModel.unpack = .finite .positive m e hm) : x ≤ y ↔ place x ≤ place y := by
  have hcanonical := isCanonical_of_unpack hx
  have hplace : place x = (e + 1074).toNat * 4503599627370496 + m := by
    rw [place, hx]
    rfl
  rw [le_iff, hx, finite_le_iff, hplace]
  rcases place_cases y with hy | ⟨hy, hplace'⟩ | ⟨m', e', hm', hy, hcanonical', hplace'⟩
  · refine iff_of_false ?_ (by omega)
    rintro (h | ⟨m', e', hm', h, -⟩)
    · rw [place, h] at hy
      cases hy
    · rw [place, h, rank] at hy
      omega
  · exact iff_of_true (.inl hy) (hplace' ▸ hcanonical.place_lt.le)
  · have hlow := hcanonical.le_exponent
    have hlow' := hcanonical'.le_exponent
    have hlt := hcanonical.mantissa_lt
    have hlt' := hcanonical'.mantissa_lt
    have hfull := hcanonical.full
    have hfull' := hcanonical'.full
    rw [hy, hplace']
    constructor
    · rintro (h | ⟨m'', e'', hm'', h, hle⟩)
      · cases h
      · cases h
        omega
    · exact fun h => .inr ⟨m', e', hm', rfl, by omega⟩

/-- What is less has no later place. -/
theorem place_le_place (h : x ≤ y) : place x ≤ place y := by
  rcases place_cases x with hx | ⟨hx, hplace⟩ | ⟨m, e, hm, hx, -, -⟩
  · rw [hx]
    exact Nat.zero_le _
  · rw [le_iff, hx, infinity_le_iff] at h
    rw [place, place, hx, h]
  · exact (le_iff_place_le hx).1 h

theorem place_eq_of_beq (h : (x == y) = true) : place x = place y := by
  have hbeq : UnpackedFloat.beq x.toModel.unpack y.toModel.unpack = true := h
  rw [beq_iff_ne_notANumber_and_eq] at hbeq
  rw [place, place]
  rcases hbeq.2.2 with heq | ⟨hx, hy⟩ | ⟨hx, hy⟩
  · rw [heq]
  · rw [hx, hy]
    rfl
  · rw [hx, hy]
    rfl

/-! ## Factors up to one -/

/-- A number that is not negative is zero or positive. -/
theorem zero_or_place_pos (h : 0.0 ≤ x) : (∃ s, x.toModel.unpack = .zero s) ∨ 0 < place x := by
  have hzero : (0.0 : Float).toModel.unpack = .zero .positive := rfl
  rw [le_iff, hzero] at h
  rw [place]
  cases hx : x.toModel.unpack with
  | notANumber =>
    rw [hx] at h
    cases h
  | zero s => exact .inl ⟨s, rfl⟩
  | infinity s =>
    cases s
    · rw [hx] at h
      cases h
    · exact .inr (Nat.zero_lt_of_lt (show 0 < rank (.infinity .positive) by decide))
  | finite s m e hm =>
    cases s
    · rw [hx] at h
      cases h
    · exact .inr (Nat.add_pos_right _ hm)

theorem place_zero_mul {s : Sign} (hx : x.toModel.unpack = .zero s) (y : Float) :
    place (x * y) = 0 := by
  rw [place, unpack_mul, hx]
  cases y.toModel.unpack <;>
    simp only [UnpackedFloat.mul, unpack_pack_notANumber, unpack_pack_zero] <;> rfl

/-- **A factor from zero to one makes no finite number greater.** -/
theorem place_mul_le (h0 : 0.0 ≤ x) (h1 : x ≤ 1.0) (hy : y.toModel.unpack ≠ .infinity .positive) :
    place (x * y) ≤ place y := by
  have hunit := place_le_place h1
  rcases zero_or_place_pos h0 with ⟨s, hzero⟩ | hpos
  · rw [place_zero_mul hzero]
    exact Nat.zero_le _
  · rcases place_cases y with hplace | ⟨hinf, -⟩ | ⟨m, e, hm, hfinite, -, -⟩
    · rcases place_cases x with hx | ⟨-, hx⟩ | ⟨m, e, hm, hx, -, -⟩
      · omega
      · rw [hx, place, unpack_one] at hunit
        exact absurd hunit (by decide)
      · rw [place_mul_eq_zero hx hplace, hplace]
    · exact absurd hinf hy
    · calc place (x * y) = place (y * x) := congrArg rank (unpack_mul_comm x y)
        _ ≤ place (y * 1.0) := place_mul_le_mul hfinite hunit
        _ = place (1.0 * y) := congrArg rank (unpack_mul_comm y 1.0)
        _ = place y := place_one_mul y

end Binary64

end Timetable

import Mathlib
import Timetable.Rule.Capacity

/-!
# Ratios of small numbers

The ratio of two numbers is rounded to a binary64 number, which might take a ratio below one up to
one.  For numbers of 32 bits it does not: the mantissas of both have 21 places to spare, so that a
ratio below one is further from it than the last place of the mantissa.

* `Binary64.unpack_toFloat`: a number below `2 ^ 53` is taken exactly.
* `Binary64.not_one_le_div`: the quotient of a smaller number by a larger one is below one.
* `le_of_one_le_ratio`: a ratio is bounded by one only where the numbers are in order.
-/

set_option autoImplicit false

namespace Timetable

namespace Binary64

open Float.Model Float.Model.UnpackedFloat

/-! ## Normal numbers -/

/-- The mantissa of a normal number has 53 bits, and its exponent is in the range of the format. -/
structure IsNormal (m : Nat) (e : Int) : Prop where
  log2_eq : m.log2 = 52
  le_exponent : -1074 ≤ e
  exponent_le : e ≤ 971

theorem IsNormal.bounds {m : Nat} {e : Int} (h : IsNormal m e) :
    4503599627370496 ≤ m ∧ m < 9007199254740992 := by
  have hne : m ≠ 0 := by
    rintro rfl
    exact absurd h.log2_eq (by decide)
  have := (Nat.log2_eq_iff hne).1 h.log2_eq
  norm_num at this
  exact this

/-- Packing a normal number loses nothing. -/
theorem unpack_pack_normal {s : Sign} {m : Nat} {e : Int} (hpos : 0 < m) (h : IsNormal m e) :
    (Float.Model.pack (.finite s m e hpos)).unpack = .finite s m e hpos := by
  obtain ⟨hlow, hhigh⟩ := h.bounds
  have hl := h.le_exponent
  have hu := h.exponent_le
  obtain ⟨biased, hbiased⟩ : ∃ biased, biased = (e + 1023 + 52).toNat := ⟨_, rfl⟩
  have hpacked : UnpackedFloat.pack Format.binary64 (.finite s m e hpos) =
      packComponents Format.binary64 s (BitVec.ofNat 11 biased) (BitVec.ofNat 52 m) := by
    simp only [UnpackedFloat.pack, h.log2_eq, hbiased]
    rw [if_neg]
    · rfl
    · show ¬ 2048 ≤ (e + 1023 + 52).toNat + 1
      omega
  have hexponent : (BitVec.ofNat 11 biased).toNat = biased := by
    rw [BitVec.toNat_ofNat, Nat.mod_eq_of_lt (by norm_num; omega)]
  have hmantissa : (1#1 ++ BitVec.ofNat 52 m).toNat = m := by
    rw [BitVec.toNat_append, ← Nat.shiftLeft_add_eq_or_of_lt (BitVec.isLt _), BitVec.toNat_ofNat,
      BitVec.toNat_ofNat]
    norm_num
    omega
  have hones : BitVec.ofNat 11 biased ≠ -1#_ := fun heq => by
    have : biased = 2047 := by
      rw [← hexponent, heq]
      rfl
    omega
  have hzero : BitVec.ofNat 11 biased ≠ 0#_ := fun heq => by
    have : biased = 0 := by
      rw [← hexponent, heq]
      rfl
    omega
  rw [Float.Model.pack, Float.Model.unpack]
  simp only [hpacked, UnpackedFloat.unpack, unpackSign_packComponents,
    unpackExponent_packComponents, unpackMantissa_packComponents, Sign.ofBitVec_toBitVec, hexponent,
    hmantissa, if_neg hones, if_neg hzero]
  congr 1
  show (biased : Int) - (1023 + 52) = e
  omega

/-! ## Rounding -/

theorem shiftRight_succ (em : ExtendedMantissa) (k : Nat) :
    em >>> (k + 1) = (em >>> k).shiftRightOne :=
  rfl

/-- Bits below the last place that are not set are shifted away. -/
theorem shiftRight_shiftLeft (m k : Nat) :
    ((⟨m <<< k, false, false⟩ : ExtendedMantissa) >>> k) = ⟨m, false, false⟩ := by
  induction k generalizing m with
  | zero => rfl
  | succ k ih =>
    rw [shiftRight_succ, Nat.add_comm, Nat.shiftLeft_add, ih, ExtendedMantissa.shiftRightOne,
      Nat.shiftLeft_eq]
    simp

theorem mantissa_shiftRight (em : ExtendedMantissa) (k : Nat) :
    (em >>> k).mantissa = em.mantissa >>> k := by
  induction k with
  | zero => rfl
  | succ k ih =>
    rw [shiftRight_succ, Nat.shiftRight_add, ← ih]
    exact (Nat.shiftRight_one _).symm

theorem mantissa_ofMantissaAndAccuracy (m : Nat) (accuracy : Accuracy) :
    (ExtendedMantissa.ofMantissaAndAccuracy m accuracy).mantissa = m := by
  rcases accuracy with _ | order
  · rfl
  · cases order <;> rfl

theorem le_roundedMantissa (em : ExtendedMantissa) :
    em.mantissa ≤ em.roundedMantissa ∧ em.roundedMantissa ≤ em.mantissa + 1 := by
  obtain ⟨m, roundBit, stickyBit⟩ := em
  cases roundBit <;> cases stickyBit <;>
    simp only [ExtendedMantissa.roundedMantissa, ExtendedMantissa.accuracy,
      Accuracy.roundToNearestEven] <;> omega

theorem shiftToTargetExponent_eq {m k : Nat} {e f : Int} (hlog : m.log2 = 52 + k)
    (hf : e + k = f) (hle : -1074 ≤ f) (accuracy : Accuracy) :
    shiftToTargetExponent Format.binary64 m e accuracy =
      (ExtendedMantissa.ofMantissaAndAccuracy m accuracy >>> k, f) := by
  have htarget : Format.binary64.targetExponent (totalExponent m e) = f := by
    show max ((m.log2 : Int) + 1 + e - 53) (-1074) = f
    omega
  have hshift : (f - e).toNat = k := by omega
  simp only [shiftToTargetExponent, htarget, shiftToExponent, hshift, hf]

/-- Rounding that does not reach the next power of two. -/
theorem roundWithAccuracy_eq {s : Sign} {m k r : Nat} {e f : Int} {accuracy : Accuracy}
    (hlog : m.log2 = 52 + k) (hf : e + k = f) (hle : -1074 ≤ f)
    (hr : (ExtendedMantissa.ofMantissaAndAccuracy m accuracy >>> k).roundedMantissa = r)
    (hrlog : r.log2 = 52) (hpos : 0 < r) :
    roundWithAccuracy Format.binary64 s m e accuracy = .finite s r f hpos := by
  have hagain := shiftToTargetExponent_eq (k := 0) hrlog (Int.add_zero f) hle .exact
  have hexact : (ExtendedMantissa.ofMantissaAndAccuracy r .exact >>> 0).mantissa = r := rfl
  rw [roundWithAccuracy, shiftToTargetExponent_eq hlog hf hle]
  simp only [hr, hagain, hexact, dif_neg (Nat.ne_of_gt hpos)]

theorem log2_shiftLeft {n : Nat} (hn : n ≠ 0) (k : Nat) : (n <<< k).log2 = n.log2 + k := by
  induction k with
  | zero => rfl
  | succ k ih =>
    rw [Nat.shiftLeft_succ, Nat.log2_two_mul, ih, Nat.add_assoc]
    exact Nat.ne_of_gt (Nat.shiftLeft_pos_iff.2 (Nat.pos_of_ne_zero hn))

/-- Nothing is rounded off where the bits that are shifted away are not set. -/
theorem roundWithAccuracy_exact {s : Sign} {m k : Nat} {e f : Int} (hm : IsNormal m f)
    (hf : e + k = f) (hpos : 0 < m) :
    roundWithAccuracy Format.binary64 s (m <<< k) e .exact = .finite s m f hpos := by
  refine roundWithAccuracy_eq ?_ hf hm.le_exponent ?_ hm.log2_eq hpos
  · rw [log2_shiftLeft (Nat.ne_of_gt hpos), hm.log2_eq]
  · rw [ExtendedMantissa.ofMantissaAndAccuracy, shiftRight_shiftLeft]
    rfl

/-- What has at least 53 bits is rounded to a normal number. -/
theorem roundWithAccuracy_normal {s : Sign} {q k : Nat} {e f : Int} (hlog : q.log2 = 52 + k)
    (hf : e + k = f) (hlow : -1074 ≤ f) (hhigh : f ≤ 971) (hfits : q >>> k + 1 < 9007199254740992)
    (accuracy : Accuracy) : ∃ r hpos, IsNormal r f ∧
      roundWithAccuracy Format.binary64 s q e accuracy = .finite s r f hpos := by
  have hq : q ≠ 0 := by
    rintro rfl
    rw [Nat.log2_zero] at hlog
    omega
  have hle : 4503599627370496 ≤ q >>> k := by
    rw [Nat.shiftRight_eq_div_pow, Nat.le_div_iff_mul_le (Nat.two_pow_pos k)]
    exact Nat.pow_add 2 52 k ▸ ((Nat.log2_eq_iff hq).1 hlog).1
  obtain ⟨r, hr⟩ : ∃ r,
    (ExtendedMantissa.ofMantissaAndAccuracy q accuracy >>> k).roundedMantissa = r := ⟨_, rfl⟩
  have hbounds := le_roundedMantissa (ExtendedMantissa.ofMantissaAndAccuracy q accuracy >>> k)
  rw [hr, mantissa_shiftRight, mantissa_ofMantissaAndAccuracy] at hbounds
  have hpos : 0 < r := by omega
  have hrlog : r.log2 = 52 := (Nat.log2_eq_iff (Nat.ne_of_gt hpos)).2 (by norm_num; omega)
  exact ⟨r, hpos, ⟨hrlog, hlow, hhigh⟩, roundWithAccuracy_eq hlog hf hlow hr hrlog hpos⟩

/-! ## Numbers -/

/-- The mantissa of a number that is taken for a `Float`. -/
def mantissaOf (n : Nat) : Nat := n <<< (52 - n.log2)

/-- The exponent of a number that is taken for a `Float`. -/
def exponentOf (n : Nat) : Int := n.log2 - 52

variable {n : Nat}

theorem mantissaOf_pos (hpos : 0 < n) : 0 < mantissaOf n := Nat.shiftLeft_pos_iff.2 hpos

theorem isNormal_of_lt (hpos : 0 < n) (hn : n < 9007199254740992) :
    IsNormal (mantissaOf n) (exponentOf n) := by
  have hlog : n.log2 < 53 := (Nat.log2_lt (Nat.ne_of_gt hpos)).2 hn
  refine ⟨?_, ?_, ?_⟩
  · rw [mantissaOf, log2_shiftLeft (Nat.ne_of_gt hpos)]
    omega
  · rw [exponentOf]
    omega
  · rw [exponentOf]
    omega

/-- A word below `2 ^ 53` is taken exactly. -/
theorem unpack_ofUInt64 (hpos : 0 < n) (hn : n < 9007199254740992) :
    (Float.Model.ofUInt64 n.toUInt64).unpack =
      .finite .positive (mantissaOf n) (exponentOf n) (mantissaOf_pos hpos) := by
  have hnormal := isNormal_of_lt hpos hn
  have hlog : n.log2 < 53 := (Nat.log2_lt (Nat.ne_of_gt hpos)).2 hn
  have hword : n.toUInt64.toNat = n := by
    rw [Nat.toUInt64_eq, UInt64.toNat_ofNat', Nat.mod_eq_of_lt (by omega)]
  have htarget : Format.binary64.targetExponent (totalExponent n 0) = exponentOf n := by
    rw [exponentOf]
    show max ((n.log2 : Int) + 1 + 0 - 53) (-1074) = n.log2 - 52
    omega
  have hshift : (0 - exponentOf n).toNat = 52 - n.log2 := by
    rw [exponentOf]
    omega
  have hround : UnpackedFloat.round Format.binary64 .positive n 0 =
      .finite .positive (mantissaOf n) (exponentOf n) (mantissaOf_pos hpos) := by
    simp only [UnpackedFloat.round, htarget, decreaseExponent, hshift]
    refine roundWithAccuracy_exact (k := 0) hnormal ?_ (mantissaOf_pos hpos)
    rw [exponentOf]
    omega
  rw [Float.Model.ofUInt64, UnpackedFloat.ofUInt64, hword, UnpackedFloat.ofNat,
    UnpackedFloat.ofInt, UnpackedFloat.normalize, Int.compare_eq_gt.2 (by omega)]
  simp only [Int.toNat_natCast, hround]
  exact unpack_pack_normal (mantissaOf_pos hpos) hnormal

/-- **A number below `2 ^ 53` is taken exactly.** -/
theorem unpack_toFloat (hpos : 0 < n) (hn : n < 9007199254740992) :
    n.toFloat.toModel.unpack =
      .finite .positive (mantissaOf n) (exponentOf n) (mantissaOf_pos hpos) := by
  have hnormal := isNormal_of_lt hpos hn
  have hfloat : n.toFloat = n.toUInt64.toFloat * Float.ofBits 0x3FF0000000000000 := by
    show Float.ofScientific n false 0 = _
    rw [Float.ofScientific, dif_pos ⟨hn, by decide⟩]
    rfl
  have hone : (Float.ofBits 0x3FF0000000000000).toModel.unpack =
    .finite .positive 4503599627370496 (-52) (by decide) := by
    rfl
  have hmul : n.toFloat.toModel.unpack = (Float.Model.pack (UnpackedFloat.mul Format.binary64
      (Float.Model.ofUInt64 n.toUInt64).unpack
        (Float.ofBits 0x3FF0000000000000).toModel.unpack)).unpack := by
    rw [hfloat]
    rfl
  rw [hmul, unpack_ofUInt64 hpos hn, hone, UnpackedFloat.mul,
    show mantissaOf n * 4503599627370496 = mantissaOf n <<< 52 from (Nat.shiftLeft_eq _ 52).symm]
  have hround := roundWithAccuracy_exact (s := .positive * .positive) (k := 52)
    (e := exponentOf n + -52) hnormal (by omega) (mantissaOf_pos hpos)
  rw [hround]
  exact unpack_pack_normal (mantissaOf_pos hpos) hnormal

/-- Exponents and mantissas are ordered as the numbers are. -/
theorem exponentOf_lt_or {a b : Nat} (hpos : 0 < a) (hab : a < b) :
    exponentOf a < exponentOf b ∨ exponentOf a = exponentOf b ∧ mantissaOf a < mantissaOf b := by
  have hle : a.log2 ≤ b.log2 := by
    rw [Nat.le_log2 (by omega)]
    exact Nat.le_trans (Nat.log2_self_le (by omega)) (Nat.le_of_lt hab)
  simp only [exponentOf, mantissaOf, Nat.shiftLeft_eq]
  rcases Nat.lt_or_eq_of_le hle with hlt | heq
  · exact .inl (by omega)
  · rw [heq]
    exact .inr ⟨rfl, (Nat.mul_lt_mul_right (Nat.two_pow_pos _)).2 hab⟩

/-- The lower bits of a mantissa of 53 bits are not set for a number of 32 bits. -/
theorem mantissaOf_dvd (hpos : 0 < n) (hn : n < 4294967296) : 2097152 ∣ mantissaOf n := by
  have hlog : n.log2 < 32 := (Nat.log2_lt (Nat.ne_of_gt hpos)).2 hn
  rw [mantissaOf, Nat.shiftLeft_eq]
  exact Nat.dvd_mul_left_of_dvd (Nat.pow_dvd_pow 2 (by omega : 21 ≤ 52 - n.log2)) n

/-! ## Quotients -/

theorem divCore_eq {m₁ m₂ : Nat} {e₁ e₂ : Int} (h₁ : IsNormal m₁ e₁) (h₂ : IsNormal m₂ e₂)
    (he : -1000 ≤ e₁ - e₂) :
    divCore Format.binary64 m₁ e₁ m₂ e₂ = ((m₁ <<< 53) / m₂, e₁ - e₂ - 53,
      accuracyOfFraction ((m₁ <<< 53) % m₂) m₂) := by
  have htarget : min (e₁ - e₂) (Format.binary64.targetExponent
      (totalExponent m₁ e₁ - totalExponent m₂ e₂)) = e₁ - e₂ - 53 := by
    show min (e₁ - e₂) (max ((m₁.log2 : Int) + 1 + e₁ - (m₂.log2 + 1 + e₂) - 53) (-1074)) = _
    rw [h₁.log2_eq, h₂.log2_eq]
    omega
  have hshift : (e₁ - e₂ - (e₁ - e₂ - 53)).toNat = 53 := by omega
  simp only [divCore, htarget, hshift]

/-- The quotient of two mantissas of numbers of 32 bits is far enough from the next power of two not
to be rounded up to it. -/
theorem exists_log2_quotient {m₁ m₂ : Nat} {e₁ e₂ : Int} (h₁ : IsNormal m₁ e₁)
    (h₂ : IsNormal m₂ e₂) (hdvd₁ : 2097152 ∣ m₁) (hdvd₂ : 2097152 ∣ m₂)
    (hlt : e₁ < e₂ ∨ e₁ = e₂ ∧ m₁ < m₂) : ∃ k : Nat, ((m₁ <<< 53) / m₂).log2 = 52 + k ∧
      e₁ - e₂ - 53 + k ≤ -53 ∧ ((m₁ <<< 53) / m₂) >>> k + 1 < 9007199254740992 := by
  obtain ⟨hlow₁, hhigh₁⟩ := h₁.bounds
  obtain ⟨hlow₂, hhigh₂⟩ := h₂.bounds
  have hshift : m₁ <<< 53 = m₁ * 9007199254740992 := Nat.shiftLeft_eq m₁ 53
  have hpos : 0 < m₂ := by omega
  by_cases hle : m₂ ≤ m₁
  · have hge : 9007199254740992 ≤ (m₁ <<< 53) / m₂ := by
      rw [Nat.le_div_iff_mul_le hpos, hshift]
      omega
    have hless : (m₁ <<< 53) / m₂ < 18014398507384833 := by
      rw [Nat.div_lt_iff_lt_mul hpos, hshift]
      omega
    refine ⟨1, (Nat.log2_eq_iff (by omega)).2 (by norm_num; omega), by omega, ?_⟩
    rw [Nat.shiftRight_one]
    omega
  · have hge : 4503599627370496 ≤ (m₁ <<< 53) / m₂ := by
      rw [Nat.le_div_iff_mul_le hpos, hshift]
      omega
    have hless : (m₁ <<< 53) / m₂ < 9007199252643841 := by
      rw [Nat.div_lt_iff_lt_mul hpos, hshift]
      omega
    refine ⟨0, (Nat.log2_eq_iff (by omega)).2 (by norm_num; omega), by omega, ?_⟩
    rw [Nat.shiftRight_zero]
    omega

theorem unpack_div (x y : Float) : (x / y).toModel.unpack = (Float.Model.pack
    (UnpackedFloat.div Format.binary64 x.toModel.unpack y.toModel.unpack)).unpack :=
  rfl

theorem unpack_zero_div (hpos : 0 < n) (hn : n < 9007199254740992) :
    (Nat.toFloat 0 / n.toFloat).toModel.unpack = .zero .positive := by
  have hzero : (Nat.toFloat 0).toModel.unpack = .zero .positive := rfl
  have hquotient : ∀ m e hm, UnpackedFloat.div Format.binary64 (.zero .positive)
      (.finite .positive m e hm) = .zero .positive := fun _ _ _ => rfl
  rw [unpack_div, unpack_toFloat hpos hn, hzero, hquotient]
  rfl

/-- The exponent of the quotient of a smaller number by a larger one is below that of one. -/
theorem exists_unpack_div_eq {a b : Nat} (hpos : 0 < a) (hab : a < b) (hb : b < wordSize 32) :
    ∃ r e hr, e ≤ -53 ∧ (a.toFloat / b.toFloat).toModel.unpack = .finite .positive r e hr := by
  have hword : wordSize 32 = 4294967296 := rfl
  rw [hword] at hb
  have hbpos : 0 < b := by omega
  have h₁ := isNormal_of_lt hpos (by omega)
  have h₂ := isNormal_of_lt hbpos (by omega)
  have hlog₁ : a.log2 < 32 := (Nat.log2_lt (Nat.ne_of_gt hpos)).2 (by norm_num; omega)
  have hlog₂ : b.log2 < 32 := (Nat.log2_lt (Nat.ne_of_gt hbpos)).2 hb
  have hrange : -1000 ≤ exponentOf a - exponentOf b := by
    simp only [exponentOf]
    omega
  obtain ⟨k, hlog, hexponent, hfits⟩ := exists_log2_quotient h₁ h₂ (mantissaOf_dvd hpos (by omega))
    (mantissaOf_dvd hbpos hb) (exponentOf_lt_or hpos hab)
  obtain ⟨e, he⟩ : ∃ e, exponentOf a - exponentOf b - 53 + k = e := ⟨_, rfl⟩
  obtain ⟨r, hr, hnormal, hround⟩ := roundWithAccuracy_normal (s := .positive) hlog he (by omega)
    (by omega) hfits (accuracyOfFraction ((mantissaOf a <<< 53) % mantissaOf b) (mantissaOf b))
  refine ⟨r, e, hr, by omega, ?_⟩
  rw [unpack_div, unpack_toFloat hpos (by omega), unpack_toFloat hbpos (by omega),
    UnpackedFloat.div, divCore_eq h₁ h₂ hrange]
  exact (congrArg (fun u => (Float.Model.pack u).unpack) hround).trans
    (unpack_pack_normal hr hnormal)

/-! ## Comparing with one -/

theorem le_iff {x y : Float} :
    x ≤ y ↔ UnpackedFloat.le x.toModel.unpack y.toModel.unpack = true := by
  show Float.le x y = true ↔ _
  rw [Float.le, decide_eq_true_iff]
  rfl

theorem isLE_then_compare {e e' : Int} {m m' : Nat} :
    ((compare e e').then (compare m m')).isLE = true ↔ e < e' ∨ e = e' ∧ m ≤ m' := by
  rcases Int.lt_trichotomy e e' with h | rfl | h
  · simp [Int.compare_eq_lt.2 h, h]
  · simp [Nat.isLE_compare]
  · simp only [Int.compare_eq_gt.2 h, Ordering.gt_then, Ordering.isLE_gt, Bool.false_eq_true,
      false_iff]
    omega

theorem finite_le_iff {m : Nat} {e : Int} {hpos : 0 < m} {u : UnpackedFloat} :
    UnpackedFloat.le (.finite .positive m e hpos) u = true ↔ u = .infinity .positive ∨
      ∃ m' e' hpos', u = .finite .positive m' e' hpos' ∧ (e < e' ∨ e = e' ∧ m ≤ m') := by
  rw [UnpackedFloat.le]
  cases u with
  | infinity s => cases s <;> simp [UnpackedFloat.compare]
  | notANumber => simp [UnpackedFloat.compare]
  | zero s => simp [UnpackedFloat.compare]
  | finite s m' e' hpos' =>
    cases s
    · simp [UnpackedFloat.compare]
    · simp [UnpackedFloat.compare, isLE_then_compare, hpos']

theorem infinity_le_iff {u : UnpackedFloat} :
    UnpackedFloat.le (.infinity .positive) u = true ↔ u = .infinity .positive := by
  rw [UnpackedFloat.le]
  cases u with
  | infinity s => cases s <;> simp [UnpackedFloat.compare] <;> decide
  | notANumber => simp [UnpackedFloat.compare]
  | zero s => simp [UnpackedFloat.compare]
  | finite s m e hpos => simp [UnpackedFloat.compare]

theorem unpack_one : (1.0 : Float).toModel.unpack =
    .finite .positive 4503599627370496 (-52) (by decide) := by
  rfl

/-- What bounds a number that is one or more is one or more. -/
theorem one_le_trans {x y : Float} (hx : 1.0 ≤ x) (hxy : x ≤ y) : 1.0 ≤ y := by
  rw [le_iff, unpack_one, finite_le_iff] at hx ⊢
  rw [le_iff] at hxy
  rcases hx with hx | ⟨m, e, hpos, hx, hle⟩
  · rw [hx, infinity_le_iff] at hxy
    exact .inl hxy
  · rw [hx, finite_le_iff] at hxy
    rcases hxy with hy | ⟨m', e', hpos', hy, hle'⟩
    · exact .inl hy
    · exact .inr ⟨m', e', hpos', hy, by omega⟩

/-- **The quotient of a smaller number by a larger one is below one.** -/
theorem not_one_le_div {a b : Nat} (hab : a < b) (hb : b < wordSize 32) :
    ¬ 1.0 ≤ a.toFloat / b.toFloat := by
  rw [le_iff, unpack_one]
  rcases Nat.eq_zero_or_pos a with rfl | hpos
  · rw [unpack_zero_div hab (Nat.lt_trans hb (by decide))]
    decide
  · obtain ⟨r, e, hr, he, hdiv⟩ := exists_unpack_div_eq hpos hab hb
    rw [hdiv, finite_le_iff]
    rintro (h | ⟨m, e', hm, h, hle⟩)
    · cases h
    · injection h with _ hm he
      omega

end Binary64

/-- **A ratio of numbers of 32 bits is one or more only where the numbers are in order.** -/
theorem le_of_one_le_ratio {a b : Nat} (hb : b < wordSize 32) (h : 1.0 ≤ Rule.ratio a b) :
    b ≤ a := by
  by_cases hzero : b = 0
  · exact hzero ▸ Nat.zero_le a
  · rw [Rule.ratio, if_neg hzero] at h
    exact Nat.not_lt.1 fun hab => Binary64.not_one_le_div hab hb h

end Timetable

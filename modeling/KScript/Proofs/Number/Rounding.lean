import KScript.Number.Decimal
import Mathlib

/-!
# Doubles and rounding

A double that is a number is told by its sign and its bit pattern (`ofMagnitude_magnitude`), and a pattern
up to that of infinity is the pattern of a double (`magnitude_ofMagnitude`).  Rounding depends on the
quotient only (`nearestMagnitude_mul`), and it keeps what is a double already (`nearestMagnitude_units`).
-/

namespace KScript.Double

variable {num den k m bits shift : Nat} {negative : Bool}

/-! ## Rounding -/

lemma twoTo_eq (k : Nat) : twoTo k = 2 ^ k := rfl

lemma binade_eq : binade = 2 ^ 52 := rfl

lemma twoTo_pos (k : Nat) : 0 < twoTo k := Nat.pow_pos (by decide)

lemma scale_pos : 0 < scale := twoTo_pos 1074

lemma divideToEven_mul (hk : 0 < k) : divideToEven (num * k) (den * k) = divideToEven num den := by
  unfold divideToEven
  rw [Nat.mul_div_mul_right _ _ hk, Nat.mul_mod_mul_right, ← Nat.mul_assoc]
  simp only [Nat.mul_lt_mul_right hk, Nat.mul_left_inj hk.ne']

lemma divideToEven_exact (hden : 0 < den) : divideToEven (num * den) den = num := by
  have hnot : ¬(den < 0 ∨ 0 = den ∧ num % 2 = 1) := by omega
  simp only [divideToEven, Nat.mul_div_cancel _ hden, Nat.mul_mod_left, Nat.mul_zero, if_neg hnot]

/-- Rounding depends on the quotient only. -/
lemma nearestMagnitude_mul (hk : 0 < k) :
    nearestMagnitude (num * k) (den * k) = nearestMagnitude num den := by
  simp only [nearestMagnitude, Nat.mul_div_mul_right _ _ hk, Nat.mul_right_comm den k,
    divideToEven_mul hk]

/-- Equal quotients are rounded alike. -/
lemma nearestMagnitude_congr {num' den' : Nat} (hden : 0 < den) (hden' : 0 < den')
    (h : num * den' = num' * den) : nearestMagnitude num den = nearestMagnitude num' den' := by
  calc nearestMagnitude num den
      = nearestMagnitude (num * den') (den * den') := (nearestMagnitude_mul hden').symm
    _ = nearestMagnitude (num' * den) (den' * den) := by rw [h, Nat.mul_comm den]
    _ = nearestMagnitude num' den' := nearestMagnitude_mul hden

/-- The units of a double are a significand of up to 53 bits times a power of two; all the bits are used
unless that power is the least one. -/
lemma exists_significand (bits : Nat) : ∃ m shift, unitsOfMagnitude bits = m * 2 ^ shift
    ∧ bits = shift * binade + m ∧ m < 2 ^ 53 ∧ (shift = 0 ∨ 2 ^ 52 ≤ m) := by
  by_cases hsmall : bits < binade
  · have hunits : unitsOfMagnitude bits = bits := if_pos hsmall
    rw [binade_eq] at hsmall
    exact ⟨bits, 0, by rw [hunits, Nat.pow_zero, Nat.mul_one], by simp, by omega, .inl rfl⟩
  · refine ⟨binade + bits % binade, bits / binade - 1, if_neg hsmall, ?_, ?_, .inr ?_⟩
    · have hdiv := Nat.div_add_mod bits binade
      have hpos : 1 ≤ bits / binade := Nat.div_pos (not_lt.mp hsmall) (by decide)
      rw [Nat.sub_mul, Nat.mul_comm]
      have hle := Nat.mul_le_mul_left binade hpos
      omega
    · have hmod : bits % binade < binade := Nat.mod_lt _ (by decide)
      rw [binade_eq] at hmod ⊢
      omega
    · rw [binade_eq]
      omega

/-- The length of the significand tells the power of two. -/
lemma log2_significand (hm : m < 2 ^ 53) (hfull : shift = 0 ∨ 2 ^ 52 ≤ m) :
    Nat.log2 (m * 2 ^ shift) - 52 = shift := by
  rcases hfull with rfl | hfull
  · rcases Nat.eq_zero_or_pos m with rfl | hpos
    · rfl
    · have hlog : Nat.log2 (m * 2 ^ 0) < 53 := (Nat.log2_lt (by omega)).mpr (by omega)
      omega
  · have hlog : Nat.log2 (m * 2 ^ shift) = 52 + shift := by
      rw [Nat.log2_eq_iff (by positivity)]
      constructor
      · rw [Nat.pow_add]
        exact Nat.mul_le_mul_right _ hfull
      · rw [show 52 + shift + 1 = 53 + shift by omega, Nat.pow_add]
        exact Nat.mul_lt_mul_of_pos_right hm (by positivity)
    omega

/-- **Rounding keeps what is a double.** -/
theorem nearestMagnitude_units (h : bits < infinityBits) (hk : 0 < k) :
    nearestMagnitude (unitsOfMagnitude bits * k) k = bits := by
  obtain ⟨m, shift, hunits, hbits, hm, hfull⟩ := exists_significand bits
  have hexact : divideToEven (m * 2 ^ shift) (1 * twoTo shift) = m := by
    rw [Nat.one_mul, twoTo_eq]
    exact divideToEven_exact (by positivity)
  calc nearestMagnitude (unitsOfMagnitude bits * k) k
      = nearestMagnitude (m * 2 ^ shift * k) (1 * k) := by rw [hunits, Nat.one_mul]
    _ = nearestMagnitude (m * 2 ^ shift) 1 := nearestMagnitude_mul hk
    _ = bits := by
        simp only [nearestMagnitude, Nat.div_one, log2_significand hm hfull, hexact, ← hbits, if_pos h]

lemma nearestMagnitude_le : nearestMagnitude num den ≤ infinityBits := by
  unfold nearestMagnitude
  dsimp only
  split <;> omega

@[simp] lemma nearestMagnitude_zero : nearestMagnitude 0 den = 0 := by
  simp [nearestMagnitude, divideToEven, infinityBits, binade, twoTo]

/-! ## Bit patterns

What the bits below the sign say: patterns up to `infinityBits` are numbers, that one is infinity, and of
the others only one is in use. -/

open Float.Model.UnpackedFloat

/-- The exponent bits are all set from infinity on. -/
lemma unpackExponent_eq_iff (b : UInt64) :
    @unpackExponent .binary64 b.toBitVec = -1#11 ↔ infinityBits ≤ b.toNat % signWeight := by
  rw [← BitVec.toNat_inj]
  simp [unpackExponent, BitVec.extractLsb, Float.Model.Format.binary64, Nat.shiftRight_eq_div_pow,
    signWeight, infinityBits, binade, twoTo]
  omega

/-- Of the patterns with such an exponent, infinity is the one without a significand. -/
lemma unpackMantissa_eq_iff {b : UInt64} (h : infinityBits ≤ b.toNat % signWeight) :
    @unpackMantissa .binary64 b.toBitVec = 0#52 ↔ b.toNat % signWeight = infinityBits := by
  rw [← BitVec.toNat_inj]
  simp [unpackMantissa, BitVec.extractLsb, Float.Model.Format.binary64]
  simp [signWeight, infinityBits, binade, twoTo] at h ⊢
  omega

lemma toBits_ofBits {b : UInt64} (h : b.toNat % signWeight ≤ infinityBits) :
    (Float.ofBits b).toBits = b := by
  have hnumber : @isNaNBits .binary64 b.toBitVec = false := by
    simp only [isNaNBits, decide_eq_false_iff_not, not_and, not_not]
    intro hexponent
    have hge := (unpackExponent_eq_iff b).mp hexponent
    exact (unpackMantissa_eq_iff hge).mpr (le_antisymm h hge)
  have hpack := @pack_unpack .binary64 b.toBitVec (by decide)
  rw [hnumber] at hpack
  simp [Float.ofBits, Float.toBits, Float.Model.ofBits, Float.Model.pack, hpack]

lemma ofBits_toBits (x : Float) : Float.ofBits x.toBits = x := by
  obtain ⟨bits, valid⟩ := x
  have hpack := pack_unpack_of_valid valid
  simp [Float.ofBits, Float.toBits, Float.Model.ofBits, Float.Model.pack, hpack]

variable {x : Float}

/-- The bits below the sign tell what sort of double it is. -/
theorem sort_iff (x : Float) : (x.isFinite = true ↔ magnitude x < infinityBits)
    ∧ (x.isInf = true ↔ magnitude x = infinityBits) ∧ (x.isNaN = true ↔ infinityBits < magnitude x) := by
  have hexponent := unpackExponent_eq_iff x.toBits
  have hmantissa := @unpackMantissa_eq_iff x.toBits
  change _ ↔ infinityBits ≤ magnitude x at hexponent
  change infinityBits ≤ magnitude x → (_ ↔ magnitude x = infinityBits) at hmantissa
  simp only [Float.isFinite, Float.Model.isFinite, Float.isInf, Float.Model.isInf, Float.isNaN,
    Float.Model.isNaN, Float.Model.unpack]
  unfold unpack
  dsimp only
  split
  · next hset =>
    have hge := hexponent.mp hset
    split
    · next hzero =>
      have heq := (hmantissa hge).mp hzero
      simp [isFinite, isInf, isNaN, heq]
    · next hzero =>
      have hne := mt (hmantissa hge).mpr hzero
      have hgt : infinityBits < magnitude x := by omega
      simp [isFinite, isInf, isNaN, hgt, hge, hne]
  · next hset =>
    have hlt : magnitude x < infinityBits := not_le.mp (mt hexponent.mpr hset)
    have hne := hlt.ne
    split
    · split <;> simp [isFinite, isInf, isNaN, hlt, hne, hlt.le]
    · simp [isFinite, isInf, isNaN, hlt, hne, hlt.le]

/-- There is one double that is no number. -/
lemma eq_nan_of_isNaN (h : x.isNaN = true) : x = nan := by
  have hbits : ∀ {y : Float}, y.isNaN = true → y.toBits.toBitVec = packedNaN .binary64 :=
    fun {y} hy => (isNaN_unpack_iff_of_valid y.toModel.valid).mp hy
  have heq : x.toBits = nan.toBits := UInt64.eq_of_toBitVec_eq ((hbits h).trans (hbits (by decide)).symm)
  rw [← ofBits_toBits x, heq, ofBits_toBits]

/-- The bits that a sign and a pattern make up. -/
lemma toNat_toBits_ofMagnitude (h : bits ≤ infinityBits) :
    (ofMagnitude negative bits).toBits.toNat = if negative then signWeight + bits else bits := by
  have hinfinity : infinityBits < signWeight := by decide
  have hweight : 2 * signWeight = 2 ^ 64 := by decide
  have hlt : (if negative then signWeight + bits else bits) < 2 ^ 64 := by split <;> omega
  have hmod : (if negative then signWeight + bits else bits) % signWeight = bits := by
    split
    · rw [Nat.add_mod_left, Nat.mod_eq_of_lt (by omega)]
    · exact Nat.mod_eq_of_lt (by omega)
  rw [ofMagnitude, toBits_ofBits (by rw [UInt64.toNat_ofNat_of_lt' hlt, hmod]; exact h),
    UInt64.toNat_ofNat_of_lt' hlt]

lemma magnitude_ofMagnitude (h : bits ≤ infinityBits) : magnitude (ofMagnitude negative bits) = bits := by
  have hinfinity : infinityBits < signWeight := by decide
  rw [magnitude, toNat_toBits_ofMagnitude h]
  split
  · rw [Nat.add_mod_left, Nat.mod_eq_of_lt (by omega)]
  · exact Nat.mod_eq_of_lt (by omega)

lemma isNegative_ofMagnitude (h : bits ≤ infinityBits) :
    isNegative (ofMagnitude negative bits) = negative := by
  have hinfinity : infinityBits < signWeight := by decide
  rw [isNegative, toNat_toBits_ofMagnitude h]
  cases negative with
  | false => simpa using by omega
  | true => simp

/-- **A double is its sign and its bit pattern.** -/
theorem ofMagnitude_magnitude (x : Float) : ofMagnitude (isNegative x) (magnitude x) = x := by
  have hlt : x.toBits.toNat < 2 * signWeight := x.toBits.toNat_lt
  have hbits : (if isNegative x then signWeight + magnitude x else magnitude x) = x.toBits.toNat := by
    unfold isNegative magnitude
    split
    · next h =>
      have hge : signWeight ≤ x.toBits.toNat := of_decide_eq_true h
      rw [Nat.mod_eq_sub_mod hge, Nat.mod_eq_of_lt (by omega)]
      omega
    · next h =>
      have hnot : x.toBits.toNat < signWeight := by simpa using h
      exact Nat.mod_eq_of_lt hnot
  rw [ofMagnitude, hbits, UInt64.ofNat_toNat, ofBits_toBits]

/-! ## Integers -/

/-- A double that is an integer and no negative zero is the double of that integer. -/
theorem ofInt_of_toInt? {n : Int} (h : toInt? x = some n) (hsign : isNegative x = false) : ofInt n = x := by
  unfold toInt? at h
  split at h
  · next hint =>
    obtain ⟨hfinite, hdvd⟩ := hint
    have hn : ((units x / scale : Nat) : Int) = n := by
      simpa only [hsign, Bool.false_eq_true, if_false, Option.some.injEq, Int.natCast_ediv] using h
    have hscale : units x / scale * scale = units x * 1 := by
      rw [Nat.mul_one]
      exact Nat.div_mul_cancel (Nat.dvd_of_mod_eq_zero hdvd)
    have hround : nearestMagnitude (units x * 1) 1 = magnitude x :=
      nearestMagnitude_units ((sort_iff x).1.mp hfinite) one_pos
    have hnot : decide (((units x / scale : Nat) : Int) < 0) = false :=
      decide_eq_false (Int.natCast_nonneg _).not_gt
    rw [← hn, ofInt, ofRatio, hnot, Int.natAbs_natCast, hscale, hround, ← hsign, ofMagnitude_magnitude]
  · cases h

end KScript.Double

import KScript.Proofs.Number.Nearest
import KScript.Proofs.Number.Shortest

/-!
# Where the exponent of a decimal changes

The exponent of the shortest decimal of a double may be one more than that of the double, where the decimal is
rounded up to a power of ten.  It does not happen at a power of ten that is read back as no less than itself:
there the exponent changes where the double passes the power of ten (`le_exponent_iff`).  Fifteen is such an
exponent, since `10 ^ 15` is a double, and so is minus four, since the nearest double to `10 ^ -4` lies above
it.
-/

namespace KScript.Decimal

open Double

variable {x : Float}

/-! ## Powers of ten -/

lemma cast_powerOfTen (e : Int) : ((powerOfTen e).1 : ℚ) / (powerOfTen e).2 = 10 ^ e := by
  have hten : ((tenTo e.natAbs : Nat) : ℚ) = 10 ^ e.natAbs := by
    rw [tenTo, Nat.pow_eq, Nat.cast_pow, Nat.cast_ofNat]
  unfold powerOfTen
  split
  · next he =>
    have heq : e = -(e.natAbs : Int) := by omega
    rw [hten, Nat.cast_one, one_div]
    conv_rhs => rw [heq, zpow_neg, zpow_natCast]
  · next he =>
    have heq : e = (e.natAbs : Int) := by omega
    rw [hten, Nat.cast_one, div_one]
    conv_rhs => rw [heq, zpow_natCast]

/-- What is read back grows with the decimal. -/
lemma readBack_mono {c c' : Nat} {e e' : Int} (h : (c : ℚ) * 10 ^ e ≤ c' * 10 ^ e') :
    readBack c e ≤ readBack c' e' := by
  have hpos : (0 : ℚ) < (powerOfTen e).2 := Nat.cast_pos.mpr (powerOfTen_pos e).2
  have hpos' : (0 : ℚ) < (powerOfTen e').2 := Nat.cast_pos.mpr (powerOfTen_pos e').2
  rw [← cast_powerOfTen, ← cast_powerOfTen, ← mul_div_assoc, ← mul_div_assoc,
    div_le_div_iff₀ hpos hpos'] at h
  have hnat : c * (powerOfTen e).1 * (powerOfTen e').2 ≤ c' * (powerOfTen e').1 * (powerOfTen e).2 := by
    exact_mod_cast h
  rw [readBack_eq, readBack_eq]
  refine nearestMagnitude_mono (powerOfTen_pos e).2 (powerOfTen_pos e').2 ?_
  rw [Nat.mul_right_comm, Nat.mul_right_comm (c' * (powerOfTen e').1)]
  exact Nat.mul_le_mul_right scale hnat

/-- How many digits a number has. -/
lemma digitsOf_bounds {n : Nat} (hn : n ≠ 0) :
    10 ^ ((digitsOf n).length - 1) ≤ n ∧ n < 10 ^ (digitsOf n).length := by
  have hlength : 0 < (digitsOf n).length := Nat.length_toDigits_pos
  refine ⟨?_, (Nat.length_toDigits_le_iff (by decide) hlength).mp le_rfl⟩
  by_cases hone : (digitsOf n).length = 1
  · rw [hone]
    exact Nat.one_le_iff_ne_zero.mpr hn
  · by_contra hlt
    have hle := (Nat.length_toDigits_le_iff (b := 10) (by decide) (by omega)).mpr (not_le.mp hlt)
    change (digitsOf n).length ≤ (digitsOf n).length - 1 at hle
    omega

/-! ## The exponent of a double -/

/-- **The leading exponent is that of the greatest power of ten not above.** -/
theorem leadingExponent_bounds {u : Nat} (hu : u ≠ 0) :
    (10 : ℚ) ^ leadingExponent u ≤ u / scale ∧ (u / scale : ℚ) < 10 ^ (leadingExponent u + 1) := by
  have hscale : (0 : ℚ) < scale := Nat.cast_pos.mpr scale_pos
  have hscaleNat := scale_pos
  unfold leadingExponent
  generalize scale = s at *
  split
  · next hle =>
    -- the digits of the whole part
    have hne : u / s ≠ 0 := (Nat.div_pos hle hscaleNat).ne'
    obtain ⟨hlower, hupper⟩ := digitsOf_bounds hne
    have hlength : 0 < (digitsOf (u / s)).length := Nat.length_toDigits_pos
    generalize (digitsOf (u / s)).length = len at *
    have hless : ((len : Int) - 1) = (len - 1 : Nat) := by omega
    rw [sub_add_cancel, hless, zpow_natCast, zpow_natCast, le_div_iff₀ hscale, div_lt_iff₀ hscale]
    have hlow : 10 ^ (len - 1) * s ≤ u := (Nat.le_div_iff_mul_le hscaleNat).mp hlower
    have hupp : u < 10 ^ len * s := (Nat.div_lt_iff_lt_mul hscaleNat).mp hupper
    exact ⟨by exact_mod_cast hlow, by exact_mod_cast hupp⟩
  · next hlt =>
    -- the digits of the reciprocal, rounded down to what is less than it
    have hpos : 0 < u := Nat.pos_of_ne_zero hu
    have hne : (s - 1) / u ≠ 0 := (Nat.div_pos (by omega) hpos).ne'
    obtain ⟨hlower, hupper⟩ := digitsOf_bounds hne
    have hlength : 0 < (digitsOf ((s - 1) / u)).length := Nat.length_toDigits_pos
    generalize (digitsOf ((s - 1) / u)).length = len at *
    have hless : -(len : Int) + 1 = -((len - 1 : Nat) : Int) := by omega
    rw [hless, zpow_neg, zpow_neg, zpow_natCast, zpow_natCast, inv_le_iff_one_le_mul₀ (by positivity),
      lt_inv_comm₀ (by positivity) (by positivity), inv_div, lt_div_iff₀ (by positivity),
      div_mul_eq_mul_div, one_le_div hscale]
    have hlow : 10 ^ (len - 1) * u ≤ s - 1 := (Nat.le_div_iff_mul_le hpos).mp hlower
    have hupp : s - 1 < 10 ^ len * u := (Nat.div_lt_iff_lt_mul hpos).mp hupper
    have hupp' : s ≤ u * 10 ^ len := by
      rw [Nat.mul_comm]
      omega
    have hlow' : 10 ^ (len - 1) * u < s := by omega
    exact ⟨by exact_mod_cast hupp', by exact_mod_cast hlow'⟩

/-! ## The exponent of the shortest decimal -/

/-- What is found on a grid is not below what it is found for by a whole step. -/
lemma le_of_onGrid? {bits u c : Nat} {e : Int} (h : onGrid? bits u e = some c) :
    u * (powerOfTen e).2 / (scale * (powerOfTen e).1) ≤ c := by
  rw [onGrid?_eq] at h
  generalize u * (powerOfTen e).2 / (scale * (powerOfTen e).1) = below at *
  rcases nearer?_cases _ _ below _ _ with ⟨-, hnone⟩ | ⟨-, hsome⟩ | ⟨-, hsome⟩
  · rw [hnone] at h
    cases h
  · rw [hsome] at h
    exact (Option.some.inj h).le
  · rw [hsome] at h
    exact (Nat.le_succ below).trans (Option.some.inj h).le

/-- On a grid that is fine enough, the coefficient has as many digits as there are steps in the number. -/
lemma pow_le_of_onGrid? {bits u c : Nat} {e : Int} (h : onGrid? bits u e = some c) (hu : u ≠ 0)
    (he : e ≤ leadingExponent u) : 10 ^ (leadingExponent u - e).toNat ≤ c := by
  refine le_trans ?_ (le_of_onGrid? h)
  have hscale : (0 : ℚ) < scale := Nat.cast_pos.mpr scale_pos
  have hpos : (0 : ℚ) < (powerOfTen e).2 := Nat.cast_pos.mpr (powerOfTen_pos e).2
  have hbound : (10 : ℚ) ^ (leadingExponent u - e).toNat * 10 ^ e ≤ u / scale := by
    have hsum : ((leadingExponent u - e).toNat : Int) + e = leadingExponent u := by omega
    rw [← zpow_natCast, ← zpow_add₀ (by norm_num), hsum]
    exact (leadingExponent_bounds hu).1
  rw [← cast_powerOfTen, ← mul_div_assoc, div_le_div_iff₀ hpos hscale] at hbound
  rw [Nat.le_div_iff_mul_le (Nat.mul_pos scale_pos (powerOfTen_pos e).1), Nat.mul_left_comm, Nat.mul_comm]
  exact_mod_cast hbound

/-- The exponent of the shortest decimal is not less than that of the double, and the double is not less than
what the power of ten with that exponent is read back as. -/
lemma exponent_shortest (hfinite : magnitude x < infinityBits) (hzero : magnitude x ≠ 0) :
    leadingExponent (units x) ≤ (shortest x).exponent
      ∧ readBack 1 (shortest x).exponent ≤ magnitude x := by
  obtain ⟨c, e, hshortest, hgrid, he⟩ := shortest_spec hfinite
  have hc : c ≠ 0 := coefficient_ne_zero hgrid hzero
  have hlength : 0 < (digitsOf c).length := Nat.length_toDigits_pos
  obtain ⟨hlower, hupper⟩ := digitsOf_bounds hc
  have hexponent : (shortest x).exponent = e + ((digitsOf c).length - 1 : Nat) := by
    rw [hshortest]
    change e + (digitsOf c).length - 1 = _
    omega
  constructor
  · have hdigits := (pow_le_of_onGrid? hgrid (units_ne_zero hzero) he).trans_lt hupper
    have hlt := (Nat.pow_lt_pow_iff_right (by decide)).mp hdigits
    omega
  · rw [← (onGrid?_spec _ _ _).1 c hgrid, hexponent]
    refine readBack_mono ?_
    rw [Nat.cast_one, one_mul, zpow_add₀ (by norm_num), zpow_natCast, mul_comm]
    have hcast : (10 : ℚ) ^ ((digitsOf c).length - 1) ≤ c := by exact_mod_cast hlower
    exact mul_le_mul_of_nonneg_right hcast (by positivity)

/-- **Where a power of ten is read back as no less than itself, the exponent changes at that power.** -/
theorem le_exponent_iff {k : Int} (hk : (10 : ℚ) ^ k ≤ unitsOfMagnitude (readBack 1 k) / 2 ^ 1074)
    (hfinite : magnitude x < infinityBits) (hzero : magnitude x ≠ 0) :
    k ≤ (shortest x).exponent ↔ 10 ^ k ≤ size x := by
  obtain ⟨hleading, hread⟩ := exponent_shortest hfinite hzero
  constructor
  · intro hle
    have hpower : ((1 : Nat) : ℚ) * 10 ^ k ≤ (1 : Nat) * 10 ^ (shortest x).exponent :=
      mul_le_mul_of_nonneg_left (zpow_le_zpow_right₀ (by norm_num) hle) (by positivity)
    have hunits := cast_units_le ((readBack_mono hpower).trans hread)
    exact hk.trans (div_le_div_of_nonneg_right hunits (by positivity))
  · intro hle
    by_contra hlt
    have hbound := (leadingExponent_bounds (units_ne_zero hzero)).2
    rw [← size_eq] at hbound
    have hpower : (10 : ℚ) ^ (leadingExponent (units x) + 1) ≤ 10 ^ k :=
      zpow_le_zpow_right₀ (by norm_num) (by omega)
    linarith

/-! ## The two thresholds -/

lemma le_readBack {k : Int} (m gap : Nat) (hgap : gap ≤ 1074)
    (hread : readBack 1 k = (1074 - gap) * binade + m) (hm : m ≤ 2 ^ 53) (hfull : 2 ^ 52 ≤ m)
    (hle : (10 : ℚ) ^ k ≤ m / 2 ^ gap) : (10 : ℚ) ^ k ≤ unitsOfMagnitude (readBack 1 k) / 2 ^ 1074 := by
  have hsplit : (2 : ℚ) ^ 1074 = 2 ^ gap * 2 ^ (1074 - gap) := by
    rw [← pow_add, Nat.add_sub_of_le hgap]
  have hcancel : (m * 2 ^ (1074 - gap) : ℚ) / (2 ^ gap * 2 ^ (1074 - gap)) = m / 2 ^ gap :=
    mul_div_mul_right _ _ (by positivity)
  rw [hread, unitsOfMagnitude_significand hm (.inr hfull), Nat.cast_mul, Nat.cast_pow, Nat.cast_ofNat,
    hsplit, hcancel]
  exact hle

/-- `10 ^ 15` is a double. -/
lemma le_readBack_fifteen : (10 : ℚ) ^ (15 : Int) ≤ unitsOfMagnitude (readBack 1 15) / 2 ^ 1074 :=
  le_readBack (10 ^ 15 * 8) 3 (by decide) (by decide +kernel) (by decide) (by decide)
    (by norm_num)

/-- The nearest double to `10 ^ -4` lies above it. -/
lemma le_readBack_minus_four :
    (10 : ℚ) ^ (-4 : Int) ≤ unitsOfMagnitude (readBack 1 (-4)) / 2 ^ 1074 :=
  le_readBack 7378697629483821 66 (by decide) (by decide +kernel) (by decide) (by decide)
    (by norm_num)

end KScript.Decimal

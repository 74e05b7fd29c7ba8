import KScript.Proofs.Number.Rounding

/-!
# The nearest double

What rounding is to be, said without bit patterns of quotients: `Nearest negative q x` says that of all
doubles with that sign `x` is the nearest one to `q`, that of two that are as near it is the even one, and
that it is infinite from the middle between the greatest finite double and the next power of two on.  There
is one such double (`Nearest.unique`), and rounding a quotient finds it (`nearest_ofRatio`).

In between stands `Rounds`, where magnitudes are counted in units: a number is rounded to a pattern if it
does not go beyond the middle between that pattern and any other.  It makes rounding monotone
(`nearestMagnitude_mono`).
-/

namespace KScript.Double

/-! ## The grid of doubles -/

section Grid

variable {m shift : Nat}

/-- The units of a double are those of its significand, a carry into the exponent included. -/
lemma unitsOfMagnitude_significand (hm : m ≤ 2 ^ 53) (hfull : shift = 0 ∨ 2 ^ 52 ≤ m) :
    unitsOfMagnitude (shift * binade + m) = m * 2 ^ shift := by
  have hbinade : binade = 2 ^ 52 := rfl
  by_cases hsmall : m < 2 ^ 52
  · obtain rfl : shift = 0 := hfull.resolve_right (by omega)
    rw [unitsOfMagnitude, if_pos (by omega)]
    simp
  · -- with the leading bit of the significand the exponent is one more
    have hnot : ¬shift * binade + m < binade := by
      rw [hbinade]
      omega
    rw [unitsOfMagnitude, if_neg hnot]
    rcases Nat.lt_or_ge m (2 ^ 53) with hlt | hge
    · have hsplit : shift * binade + m = m - binade + binade * (shift + 1) := by
        rw [hbinade]
        omega
      have hmod : m - binade < binade := by
        rw [hbinade]
        omega
      rw [hsplit, Nat.add_mul_mod_self_left, Nat.add_mul_div_left _ _ (by decide), Nat.mod_eq_of_lt hmod,
        Nat.div_eq_of_lt hmod, twoTo_eq, Nat.zero_add, Nat.add_sub_cancel, Nat.add_sub_of_le]
      rw [hbinade]
      omega
    · obtain rfl : m = 2 ^ 53 := le_antisymm hm hge
      have hsplit : shift * binade + 2 ^ 53 = binade * (shift + 2) := by
        rw [hbinade]
        omega
      rw [hsplit, Nat.mul_mod_right, Nat.mul_div_cancel_left _ (by decide), twoTo_eq, hbinade,
        show shift + 2 - 1 = 1 + shift by omega, Nat.pow_add]
      ring

/-- A larger pattern is a larger number. -/
lemma unitsOfMagnitude_strictMono : StrictMono unitsOfMagnitude := by
  refine strictMono_nat_of_lt_succ fun bits => ?_
  obtain ⟨m, shift, hunits, hbits, hm, hfull⟩ := exists_significand bits
  have hnext : unitsOfMagnitude (bits + 1) = (m + 1) * 2 ^ shift := by
    rw [hbits, Nat.add_assoc]
    exact unitsOfMagnitude_significand (by omega) (by omega)
  rw [hnext, hunits]
  exact Nat.mul_lt_mul_of_pos_right (Nat.lt_succ_self m) (by positivity)

/-- The next double is a step of the significand away, or more. -/
lemma le_units_of_lt {c : Nat} (hm : m ≤ 2 ^ 53) (hfull : shift = 0 ∨ 2 ^ 52 ≤ m)
    (hc : shift * binade + m < c) : (m + 1) * 2 ^ shift ≤ unitsOfMagnitude c := by
  refine le_trans ?_ (unitsOfMagnitude_strictMono.monotone hc)
  rcases Nat.lt_or_ge m (2 ^ 53) with hlt | hge
  · rw [Nat.succ_eq_add_one, Nat.add_assoc]
    exact (unitsOfMagnitude_significand (by omega) (by omega)).ge
  · obtain rfl : m = 2 ^ 53 := le_antisymm hm hge
    have hcarry : (shift * binade + 2 ^ 53).succ = (shift + 1) * binade + (2 ^ 52 + 1) := by
      have hbinade : binade = 2 ^ 52 := rfl
      rw [hbinade]
      omega
    rw [hcarry, unitsOfMagnitude_significand (by decide) (.inr (by decide))]
    calc (2 ^ 53 + 1) * 2 ^ shift ≤ (2 ^ 52 + 1) * 2 * 2 ^ shift := Nat.mul_le_mul_right _ (by decide)
      _ = (2 ^ 52 + 1) * 2 ^ (shift + 1) := by rw [Nat.mul_assoc, ← Nat.pow_succ']

/-- So is the one before, unless it has a smaller exponent. -/
lemma units_le_of_lt {c : Nat} (hm : m ≤ 2 ^ 53) (hfull : shift = 0 ∨ 2 ^ 52 < m)
    (hc : c < shift * binade + m) : unitsOfMagnitude c + 2 ^ shift ≤ m * 2 ^ shift := by
  obtain ⟨k, rfl⟩ : ∃ k, m = k + 1 := by
    refine Nat.exists_eq_succ_of_ne_zero ?_
    rintro rfl
    obtain rfl : shift = 0 := hfull.resolve_right (by omega)
    omega
  have hunits : unitsOfMagnitude (shift * binade + k) = k * 2 ^ shift :=
    unitsOfMagnitude_significand (by omega) (by omega)
  have hle : unitsOfMagnitude c ≤ unitsOfMagnitude (shift * binade + k) :=
    unitsOfMagnitude_strictMono.monotone (by omega)
  rw [Nat.add_mul, Nat.one_mul]
  omega

/-- What infinity would be if it were a number, and the greatest number below it. -/
lemma unitsOfMagnitude_infinityBits : unitsOfMagnitude infinityBits = 2 ^ 53 * 2 ^ 2045
    ∧ unitsOfMagnitude (infinityBits - 1) = (2 ^ 53 - 1) * 2 ^ 2045 := by
  have hinfinity : infinityBits = 2045 * binade + 2 ^ 53 := by decide
  have hlast : infinityBits - 1 = 2045 * binade + (2 ^ 53 - 1) := by decide
  rw [hlast, hinfinity]
  exact ⟨unitsOfMagnitude_significand le_rfl (by omega),
    unitsOfMagnitude_significand (by omega) (by omega)⟩

end Grid

/-! ## Rounding to a pattern -/

/-- The number of units is rounded to the pattern `b`: it does not go beyond the middle between that pattern
and any other, and it is in the middle only if the pattern is even. -/
structure Rounds (r : ℚ) (b : Nat) : Prop where
  below : ∀ c < b, (unitsOfMagnitude c + unitsOfMagnitude b : ℚ) < 2 * r
    ∨ (unitsOfMagnitude c + unitsOfMagnitude b : ℚ) = 2 * r ∧ b % 2 = 0
  above : ∀ c, b < c → 2 * r < unitsOfMagnitude b + unitsOfMagnitude c
    ∨ 2 * r = unitsOfMagnitude b + unitsOfMagnitude c ∧ b % 2 = 0

lemma cast_units_lt {b c : Nat} (h : b < c) : (unitsOfMagnitude b : ℚ) < unitsOfMagnitude c :=
  Nat.cast_lt.mpr (unitsOfMagnitude_strictMono h)

lemma cast_units_le {b c : Nat} (h : b ≤ c) : (unitsOfMagnitude b : ℚ) ≤ unitsOfMagnitude c :=
  Nat.cast_le.mpr (unitsOfMagnitude_strictMono.monotone h)

namespace Rounds

variable {r r' : ℚ} {b b' : Nat}

/-- **Rounding is monotone.**  Two numbers that were rounded the other way round would both be the middle
between their patterns, and a pattern in between would be nearer. -/
theorem mono (h : Rounds r b) (h' : Rounds r' b') (hle : r ≤ r') : b ≤ b' := by
  by_contra! hlt
  have hbelow := h.below b' hlt
  have habove := h'.above b hlt
  have heven : b % 2 = 0 ∧ b' % 2 = 0 := by
    constructor
    · rcases hbelow with h | h
      · rcases habove with h' | h' <;> linarith
      · exact h.2
    · rcases habove with h | h
      · rcases hbelow with h' | h' <;> linarith
      · exact h.2
  have hmiddle := h'.above (b' + 1) (Nat.lt_succ_self b')
  have hcloser := cast_units_lt (show b' + 1 < b by omega)
  have hge : (unitsOfMagnitude b' + unitsOfMagnitude b : ℚ) ≤ 2 * r := by
    rcases hbelow with h | h <;> linarith
  rcases hmiddle with h | h <;> linarith

/-- The patterns from infinity on are those of the numbers from the middle before it on. -/
lemma infinityBits_le_iff (h : Rounds r b) : infinityBits ≤ b ↔ 2 ^ 53 * 2 ^ 2045 - 2 ^ 2044 ≤ r := by
  obtain ⟨hinfinity, hlast⟩ := unitsOfMagnitude_infinityBits
  have hinfinity' : (unitsOfMagnitude infinityBits : ℚ) = 2 ^ 53 * 2 ^ 2045 := by
    rw [hinfinity, Nat.cast_mul, Nat.cast_pow, Nat.cast_pow, Nat.cast_ofNat]
  have hlast' : (unitsOfMagnitude (infinityBits - 1) : ℚ) = 2 ^ 53 * 2 ^ 2045 - 2 * 2 ^ 2044 := by
    rw [hlast, ← pow_succ', Nat.cast_mul, Nat.cast_sub (by decide), Nat.cast_pow, Nat.cast_pow, Nat.cast_one,
      Nat.cast_ofNat, sub_mul, one_mul]
  generalize (2 ^ 53 * 2 ^ 2045 : ℚ) = next at hinfinity' hlast' ⊢
  generalize (2 ^ 2044 : ℚ) = half at hlast' ⊢
  have hpos : 0 < infinityBits := by decide
  constructor
  · intro hge
    have hbelow := h.below (infinityBits - 1) (by omega)
    have hunits := cast_units_le hge
    rcases hbelow with h | h <;> linarith
  · intro hge
    by_contra! hlt
    have habove := h.above infinityBits hlt
    have hunits := cast_units_le (show b ≤ infinityBits - 1 by omega)
    rcases habove with h | ⟨heq, heven⟩
    · linarith
    · -- the greatest finite double is odd
      have hne : b ≠ infinityBits - 1 := by
        rintro rfl
        exact absurd heven (by decide)
      have hunits := cast_units_lt (show b < infinityBits - 1 by omega)
      linarith

end Rounds

/-! ## Rounding a quotient -/

section Quotient

variable {num den num' den' : Nat}

/-- A quotient is rounded by one half at most, and by one half only to an even number. -/
lemma divideToEven_near (num : Nat) (hden : 0 < den) :
    ((2 * divideToEven num den - 1 : ℚ) < 2 * (num / den)
        ∨ (2 * divideToEven num den - 1 : ℚ) = 2 * (num / den) ∧ divideToEven num den % 2 = 0)
      ∧ ((2 * (num / den) : ℚ) < 2 * divideToEven num den + 1
        ∨ (2 * (num / den) : ℚ) = 2 * divideToEven num den + 1 ∧ divideToEven num den % 2 = 0) := by
  have hpos : (0 : ℚ) < den := Nat.cast_pos.mpr hden
  have hmod := Nat.mod_lt num hden
  have hdiv : (den * (num / den : Nat) + (num % den : Nat) : ℚ) = num := by
    exact_mod_cast Nat.div_add_mod num den
  rw [← mul_div_assoc, lt_div_iff₀ hpos, eq_div_iff hpos.ne', div_lt_iff₀ hpos, div_eq_iff hpos.ne', ← hdiv]
  have hround : divideToEven num den = if den < 2 * (num % den) ∨ 2 * (num % den) = den ∧ num / den % 2 = 1
      then num / den + 1 else num / den := rfl
  -- what counts is how twice the remainder compares with the divisor
  have hlt : (num % den : Nat) < (den : ℚ) := Nat.cast_lt.mpr hmod
  have hcompare : (den : ℚ) < 2 * (num % den : Nat) ∧ den < 2 * (num % den)
      ∨ (den : ℚ) = 2 * (num % den : Nat) ∧ den = 2 * (num % den)
      ∨ 2 * (num % den : Nat) < (den : ℚ) ∧ 2 * (num % den) < den := by
    rcases Nat.lt_trichotomy den (2 * (num % den)) with h | h | h
    · exact .inl ⟨by exact_mod_cast h, h⟩
    · exact .inr (.inl ⟨by exact_mod_cast h, h⟩)
    · exact .inr (.inr ⟨by exact_mod_cast h, h⟩)
  rcases hcompare with ⟨hcast, h⟩ | ⟨hcast, h⟩ | ⟨hcast, h⟩
  · rw [hround, if_pos (.inl h)]
    push_cast
    exact ⟨.inl (by linarith), .inl (by linarith)⟩
  · by_cases hodd : num / den % 2 = 1
    · rw [hround, if_pos (.inr ⟨h.symm, hodd⟩)]
      push_cast
      exact ⟨.inr ⟨by linarith, by omega⟩, .inl (by linarith)⟩
    · rw [hround, if_neg (by omega)]
      exact ⟨.inl (by linarith), .inr ⟨by linarith, by omega⟩⟩
  · rw [hround, if_neg (by omega)]
    have hnonneg : (0 : ℚ) ≤ (num % den : Nat) := Nat.cast_nonneg _
    exact ⟨.inl (by linarith), .inl (by linarith)⟩

lemma divideToEven_cases (num den : Nat) :
    divideToEven num den = num / den ∨ divideToEven num den = num / den + 1 := by
  unfold divideToEven
  dsimp only
  split <;> simp

/-- The quotient has up to 53 bits after the shift, and all of them if it is shifted. -/
lemma shifted_bounds (num den : Nat) : let shift := Nat.log2 (num / den) - 52
    num / (den * 2 ^ shift) < 2 ^ 53 ∧ (shift = 0 ∨ 2 ^ 52 ≤ num / (den * 2 ^ shift)) := by
  intro shift
  have hshift : shift = Nat.log2 (num / den) - 52 := rfl
  clear_value shift
  rw [← Nat.div_div_eq_div_mul]
  constructor
  · rw [Nat.div_lt_iff_lt_mul (by positivity), ← Nat.pow_add]
    calc num / den < 2 ^ (Nat.log2 (num / den) + 1) := Nat.lt_log2_self
      _ ≤ 2 ^ (53 + shift) := Nat.pow_le_pow_right (by decide) (by omega)
  · rcases Nat.eq_zero_or_pos shift with hzero | hpos
    · exact .inl hzero
    · refine .inr ((Nat.le_div_iff_mul_le (by positivity)).mpr ?_)
      have hne : num / den ≠ 0 := by
        intro hzero
        rw [hzero, Nat.log2_zero] at hshift
        omega
      calc 2 ^ 52 * 2 ^ shift = 2 ^ Nat.log2 (num / den) := by rw [← Nat.pow_add]; congr 1; omega
        _ ≤ num / den := Nat.log2_self_le hne

/-- **A quotient is rounded to the nearest pattern,** which is then cut off at infinity. -/
theorem exists_rounds (num : Nat) (hden : 0 < den) :
    ∃ b, Rounds (num / den) b ∧ nearestMagnitude num den = min b infinityBits := by
  obtain ⟨hlt, hfull⟩ := shifted_bounds num den
  have hmin (b : Nat) : (if b < infinityBits then b else infinityBits) = min b infinityBits := by
    split <;> omega
  have hvalue : nearestMagnitude num den
      = min ((Nat.log2 (num / den) - 52) * binade
          + divideToEven num (den * 2 ^ (Nat.log2 (num / den) - 52))) infinityBits := hmin _
  refine ⟨_, ?_, hvalue⟩
  generalize Nat.log2 (num / den) - 52 = shift at *
  have hcases := divideToEven_cases num (den * 2 ^ shift)
  have hpos : 0 < den * 2 ^ shift := by positivity
  obtain ⟨hlower, hupper⟩ := divideToEven_near num hpos
  have hfloor : ((num / (den * 2 ^ shift) : Nat) : ℚ) ≤ (num : ℚ) / (den * 2 ^ shift : Nat) :=
    Nat.cast_div_le
  generalize divideToEven num (den * 2 ^ shift) = q at *
  generalize num / (den * 2 ^ shift) = floor at *
  -- from here on in units, where the numbers of 53 bits are `2 ^ shift` apart
  have hunits : (unitsOfMagnitude (shift * binade + q) : ℚ) = q * 2 ^ shift := by
    rw [unitsOfMagnitude_significand (by omega) (by omega)]
    push_cast
    rfl
  have hparity : (shift * binade + q) % 2 = q % 2 := by
    have hbinade : binade = 2 * 2 ^ 51 := rfl
    rw [hbinade]
    omega
  have hstep : (0 : ℚ) < 2 ^ shift := by positivity
  have hratio : (num / den : ℚ) = (num : ℚ) / (den * 2 ^ shift : Nat) * 2 ^ shift := by
    push_cast
    rw [div_mul_eq_mul_div, mul_div_mul_right _ _ hstep.ne']
  rw [hratio]
  generalize (num : ℚ) / (den * 2 ^ shift : Nat) = t at *
  constructor
  · intro c hc
    by_cases hleast : shift ≠ 0 ∧ q = 2 ^ 52
    · -- the least of its exponent: nothing has been rounded up
      have hq : (q : ℚ) ≤ t := le_trans (by exact_mod_cast (show q ≤ floor by omega)) hfloor
      have hunits' := cast_units_lt hc
      have hle : (q * 2 ^ shift : ℚ) ≤ t * 2 ^ shift := mul_le_mul_of_nonneg_right hq hstep.le
      rw [hunits] at hunits' ⊢
      exact .inl (by linarith)
    · have hbefore : (unitsOfMagnitude c + 2 ^ shift : ℚ) ≤ q * 2 ^ shift := by
        exact_mod_cast units_le_of_lt (by omega) (by omega) hc
      rw [hunits, hparity]
      rcases hlower with hlower | ⟨hlower, heven⟩
      · exact .inl (by nlinarith)
      · have hmiddle : (2 * q - 1) * 2 ^ shift = 2 * (t * 2 ^ shift) := by rw [hlower, mul_assoc]
        rcases hbefore.lt_or_eq with hlt | heq
        · exact .inl (by linarith)
        · exact .inr ⟨by linarith, heven⟩
  · intro c hc
    have hafter : ((q + 1) * 2 ^ shift : ℚ) ≤ unitsOfMagnitude c := by
      exact_mod_cast le_units_of_lt (by omega) (by omega) hc
    rw [hunits, hparity]
    rcases hupper with hupper | ⟨hupper, heven⟩
    · exact .inl (by nlinarith)
    · have hmiddle : 2 * (t * 2 ^ shift) = (2 * q + 1) * 2 ^ shift := by rw [← hupper, mul_assoc]
      rcases hafter.lt_or_eq with hlt | heq
      · exact .inl (by linarith)
      · exact .inr ⟨by linarith, heven⟩

/-- **Rounding is monotone** in the quotient. -/
theorem nearestMagnitude_mono (hden : 0 < den) (hden' : 0 < den') (h : num * den' ≤ num' * den) :
    nearestMagnitude num den ≤ nearestMagnitude num' den' := by
  obtain ⟨b, hb, hvalue⟩ := exists_rounds num hden
  obtain ⟨b', hb', hvalue'⟩ := exists_rounds num' hden'
  have hle : (num / den : ℚ) ≤ num' / den' := by
    rw [div_le_div_iff₀ (Nat.cast_pos.mpr hden) (Nat.cast_pos.mpr hden')]
    exact_mod_cast h
  rw [hvalue, hvalue']
  exact min_le_min_right _ (hb.mono hb' hle)

end Quotient

/-! ## The nearest double -/

/-- The exact magnitude of a finite double. -/
def size (x : Float) : ℚ := units x / 2 ^ 1074

/-- Of the doubles with that sign, `x` is the nearest to the magnitude `q`, the even one of two that are as
near.  It is infinite from the middle between the greatest finite double and the next power of two on. -/
structure Nearest (negative : Bool) (q : ℚ) (x : Float) : Prop where
  sign : isNegative x = negative
  number : x.isNaN = false
  infinite : x.isInf = true ↔ 2 ^ 1024 - 2 ^ 970 ≤ q
  closest : x.isFinite = true → ∀ y : Float, y.isFinite = true → |size x - q| < |size y - q|
    ∨ |size x - q| = |size y - q| ∧ (magnitude y = magnitude x ∨ magnitude x % 2 = 0)

section Nearest

variable {negative : Bool} {q : ℚ} {x y : Float}

lemma size_eq (x : Float) : size x = units x / scale := by
  rw [size, scale, twoTo_eq, Nat.cast_pow, Nat.cast_ofNat]

lemma units_ne_zero (h : magnitude x ≠ 0) : units x ≠ 0 :=
  (Nat.zero_lt_of_lt (unitsOfMagnitude_strictMono (Nat.pos_of_ne_zero h))).ne'

lemma size_of_magnitude_zero (h : magnitude x = 0) : size x = 0 := by
  rw [size, units, h, unitsOfMagnitude, if_pos (by decide), Nat.cast_zero, zero_div]

lemma size_pos (h : magnitude x ≠ 0) : 0 < size x := by
  rw [size_eq]
  exact div_pos (Nat.cast_pos.mpr (Nat.pos_of_ne_zero (units_ne_zero h))) (Nat.cast_pos.mpr scale_pos)

lemma size_lt_size_iff : size x < size y ↔ magnitude x < magnitude y := by
  rw [size, size, div_lt_div_iff_of_pos_right (by positivity), Nat.cast_lt]
  exact unitsOfMagnitude_strictMono.lt_iff_lt

/-- A number is finite or infinite. -/
lemma isFinite_iff_not_isInf (h : x.isNaN = false) : x.isFinite = true ↔ ¬x.isInf = true := by
  obtain ⟨hfinite, hinf, hnan⟩ := sort_iff x
  have hle : ¬infinityBits < magnitude x := mt hnan.mpr (Bool.eq_false_iff.mp h)
  rw [hfinite, hinf]
  omega

/-- Sign and magnitude tell a double. -/
lemma eq_of_magnitude (hsign : isNegative x = isNegative y) (h : magnitude x = magnitude y) : x = y := by
  rw [← ofMagnitude_magnitude x, ← ofMagnitude_magnitude y, hsign, h]

/-- Of two doubles that are as near, both even, neither is the nearest: the next one after the smaller is
nearer. -/
lemma Nearest.not_lt (hx : Nearest negative q x) (hfinite : x.isFinite = true) (hy : y.isFinite = true)
    (heven : magnitude x % 2 = 0) (heven' : magnitude y % 2 = 0) (hdist : |size x - q| = |size y - q|) :
    ¬magnitude x < magnitude y := by
  intro hlt
  have hbound := (sort_iff y).1.mp hy
  have hmagnitude : magnitude (ofMagnitude false (magnitude x + 1)) = magnitude x + 1 :=
    magnitude_ofMagnitude (by omega)
  have hz : (ofMagnitude false (magnitude x + 1)).isFinite = true := by
    rw [(sort_iff _).1, hmagnitude]
    omega
  have hxz : size x < size (ofMagnitude false (magnitude x + 1)) := by
    rw [size_lt_size_iff, hmagnitude]
    exact Nat.lt_succ_self _
  have hzy : size (ofMagnitude false (magnitude x + 1)) < size y := by
    rw [size_lt_size_iff, hmagnitude]
    omega
  have hclosest := hx.closest hfinite _ hz
  generalize size (ofMagnitude false (magnitude x + 1)) = z at hxz hzy hclosest
  have hmiddle : size x + size y = 2 * q := by
    rcases abs_eq_abs.mp hdist with h | h
    · linarith
    · linarith
  have hnearer : |z - q| < |size x - q| := by
    rw [abs_of_neg (show size x - q < 0 by linarith), abs_lt]
    constructor <;> linarith
  rcases hclosest with h | h
  · linarith
  · linarith [h.1]

/-- **There is one nearest double.** -/
theorem Nearest.unique (hx : Nearest negative q x) (hy : Nearest negative q y) : x = y := by
  refine eq_of_magnitude (hx.sign.trans hy.sign.symm) ?_
  by_cases hinf : 2 ^ 1024 - 2 ^ 970 ≤ q
  · rw [(sort_iff x).2.1.mp (hx.infinite.mpr hinf), (sort_iff y).2.1.mp (hy.infinite.mpr hinf)]
  · have hx' := (isFinite_iff_not_isInf hx.number).mpr (mt hx.infinite.mp hinf)
    have hy' := (isFinite_iff_not_isInf hy.number).mpr (mt hy.infinite.mp hinf)
    rcases hx.closest hx' y hy' with h | ⟨hdist, h⟩
    · rcases hy.closest hy' x hx' with h' | h'
      · linarith
      · linarith [h'.1]
    · rcases hy.closest hy' x hx' with h' | ⟨-, h'⟩
      · linarith
      · rcases h with heq | heven
        · exact heq.symm
        rcases h' with heq | heven'
        · exact heq
        have hle := hx.not_lt hx' hy' heven heven' hdist
        have hge := hy.not_lt hy' hx' heven' heven hdist.symm
        omega

lemma Nearest.eq_infinity_iff (h : Nearest false q x) : x = infinity ↔ 2 ^ 1024 - 2 ^ 970 ≤ q := by
  have hinfinity : magnitude infinity = infinityBits := magnitude_ofMagnitude le_rfl
  have hsign : isNegative infinity = false := isNegative_ofMagnitude le_rfl
  rw [← h.infinite, (sort_iff x).2.1]
  refine ⟨fun heq => heq ▸ hinfinity, fun hmagnitude => ?_⟩
  exact eq_of_magnitude (h.sign.trans hsign.symm) (hmagnitude.trans hinfinity.symm)

/-- On the near side of the middle. -/
lemma abs_lt_of_middle {s t r : ℚ} (h : s < t ∧ s + t < 2 * r ∨ t < s ∧ 2 * r < t + s) :
    |t - r| < |s - r| := by
  rcases h with ⟨hlt, hmiddle⟩ | ⟨hlt, hmiddle⟩
  · rw [abs_of_neg (show s - r < 0 by linarith), abs_lt]
    constructor <;> linarith
  · rw [abs_of_pos (show 0 < s - r by linarith), abs_lt]
    constructor <;> linarith

/-- Rounding finds the nearest pattern. -/
lemma Rounds.closest {r : ℚ} {b c : Nat} (h : Rounds r b) :
    |unitsOfMagnitude b - r| < |unitsOfMagnitude c - r|
      ∨ |unitsOfMagnitude b - r| = |unitsOfMagnitude c - r| ∧ (c = b ∨ b % 2 = 0) := by
  rcases Nat.lt_trichotomy c b with hlt | rfl | hlt
  · rcases h.below c hlt with hmiddle | ⟨hmiddle, heven⟩
    · exact .inl (abs_lt_of_middle (.inl ⟨cast_units_lt hlt, hmiddle⟩))
    · refine .inr ⟨abs_eq_abs.mpr (.inr ?_), .inr heven⟩
      linarith
  · exact .inr ⟨rfl, .inl rfl⟩
  · rcases h.above c hlt with hmiddle | ⟨hmiddle, heven⟩
    · exact .inl (abs_lt_of_middle (.inr ⟨cast_units_lt hlt, hmiddle⟩))
    · refine .inr ⟨abs_eq_abs.mpr (.inr ?_), .inr heven⟩
      linarith

/-- **A quotient is rounded to the nearest double.** -/
theorem nearest_ofRatio (negative : Bool) (num : Nat) {den : Nat} (hden : 0 < den) :
    Nearest negative (num / den) (ofRatio negative num den) := by
  obtain ⟨b, hrounds, hvalue⟩ := exists_rounds (num * scale) hden
  have hmagnitude : magnitude (ofRatio negative num den) = min b infinityBits := by
    rw [← hvalue]
    exact magnitude_ofMagnitude nearestMagnitude_le
  have hscale : (0 : ℚ) < 2 ^ 1074 := by positivity
  -- the same number in units
  have hunits : ((num * scale : Nat) / den : ℚ) = num / den * 2 ^ 1074 := by
    rw [scale, twoTo_eq, Nat.cast_mul, Nat.cast_pow, Nat.cast_ofNat, mul_div_right_comm]
  rw [hunits] at hrounds
  obtain ⟨hfinite, hinf, hnan⟩ := sort_iff (ofRatio negative num den)
  rw [hmagnitude] at hfinite hinf hnan
  refine ⟨isNegative_ofMagnitude nearestMagnitude_le, ?_, ?_, fun hx y _ => ?_⟩
  · rw [Bool.eq_false_iff, ne_eq, hnan]
    omega
  · have hthreshold : (2 ^ 53 * 2 ^ 2045 - 2 ^ 2044 : ℚ) = (2 ^ 1024 - 2 ^ 970) * 2 ^ 1074 := by
      rw [sub_mul, ← pow_add, ← pow_add, ← pow_add]
    rw [hinf, min_eq_right_iff, hrounds.infinityBits_le_iff, hthreshold, mul_le_mul_iff_of_pos_right hscale]
  · have hb : magnitude (ofRatio negative num den) = b := by
      have hlt := hfinite.mp hx
      omega
    have hdist (z : Float) : |(unitsOfMagnitude (magnitude z) : ℚ) - num / den * 2 ^ 1074|
        = |size z - num / den| * 2 ^ 1074 := by
      have hsize : (unitsOfMagnitude (magnitude z) : ℚ) = size z * 2 ^ 1074 :=
        (div_mul_cancel₀ _ hscale.ne').symm
      rw [hsize, ← sub_mul, abs_mul, abs_of_pos hscale]
    have hclosest := hrounds.closest (c := magnitude y)
    rw [← hb, hdist, hdist, mul_lt_mul_iff_of_pos_right hscale, mul_left_inj' hscale.ne'] at hclosest
    exact hclosest

end Nearest

end KScript.Double

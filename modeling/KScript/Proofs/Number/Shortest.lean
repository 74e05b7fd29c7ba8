import KScript.Proofs.Number.Rounding

/-!
# Shortest decimals read back

The search for the shortest decimal of a double ends: far enough down, a grid of powers of ten holds every
double exactly (`onGrid?_exact`).  What it ends with reads back as that double, also without the zeros at
its end (`bitsOf_shortest`).
-/

namespace KScript.Decimal

open Double

variable {bits units count fuel coefficient : Nat} {e leading : Int} {x : Float}

/-! ## Powers of ten -/

lemma readBack_eq (coefficient : Nat) (e : Int) : readBack coefficient e
    = nearestMagnitude (coefficient * (powerOfTen e).1 * scale) (powerOfTen e).2 := rfl

-- None of these is ever to be computed: the scale alone has a thousand bits.
seal scale readBack

lemma powerOfTen_pos (e : Int) : 0 < (powerOfTen e).1 ∧ 0 < (powerOfTen e).2 := by
  have hten : 0 < tenTo e.natAbs := Nat.pow_pos (by decide)
  unfold powerOfTen
  split
  · exact ⟨one_pos, hten⟩
  · exact ⟨hten, one_pos⟩

/-- A factor of a power of ten can be moved into the exponent. -/
lemma powerOfTen_add (e : Int) (zeros : Nat) :
    10 ^ zeros * (powerOfTen e).1 * (powerOfTen (e + zeros)).2
      = (powerOfTen (e + zeros)).1 * (powerOfTen e).2 := by
  unfold powerOfTen
  by_cases he : e < 0
  · by_cases hsum : e + zeros < 0
    · simp only [if_pos he, if_pos hsum, Nat.mul_one, Nat.one_mul, tenTo, Nat.pow_eq, ← Nat.pow_add]
      congr 1
      omega
    · simp only [if_pos he, if_neg hsum, Nat.mul_one, tenTo, Nat.pow_eq, ← Nat.pow_add]
      congr 1
      omega
  · have hsum : ¬e + zeros < 0 := by omega
    simp only [if_neg he, if_neg hsum, Nat.mul_one, tenTo, Nat.pow_eq, ← Nat.pow_add]
    congr 1
    omega

/-- Zeros at the end of a coefficient count as a higher exponent. -/
lemma readBack_mul_pow (coefficient zeros : Nat) (e : Int) :
    readBack (coefficient * 10 ^ zeros) e = readBack coefficient (e + zeros) := by
  rw [readBack_eq, readBack_eq]
  refine nearestMagnitude_congr (powerOfTen_pos e).2 (powerOfTen_pos (e + zeros)).2 ?_
  have hadd := powerOfTen_add e zeros
  generalize scale = s
  calc coefficient * 10 ^ zeros * (powerOfTen e).1 * s * (powerOfTen (e + zeros)).2
      = coefficient * s * (10 ^ zeros * (powerOfTen e).1 * (powerOfTen (e + zeros)).2) := by ring
    _ = coefficient * (powerOfTen (e + zeros)).1 * s * (powerOfTen e).2 := by rw [hadd]; ring

@[simp] lemma readBack_zero (e : Int) : readBack 0 e = 0 := by
  rw [readBack_eq, Nat.zero_mul, Nat.zero_mul, nearestMagnitude_zero]

/-! ## One grid -/

/-- What is taken is one of the two neighbours, and it reads back. -/
lemma nearer?_cases (lower upper : Bool) (below twice step : Nat) :
    (lower = false ∧ nearer? lower upper below twice step = none)
      ∨ (lower = true ∧ nearer? lower upper below twice step = some below)
      ∨ (upper = true ∧ nearer? lower upper below twice step = some (below + 1)) := by
  cases lower <;> cases upper <;> simp [nearer?]
  omega

lemma onGrid?_eq (bits units : Nat) (e : Int) : onGrid? bits units e
    = nearer? (readBack (units * (powerOfTen e).2 / (scale * (powerOfTen e).1)) e == bits)
      (readBack (units * (powerOfTen e).2 / (scale * (powerOfTen e).1) + 1) e == bits)
      (units * (powerOfTen e).2 / (scale * (powerOfTen e).1))
      (2 * (units * (powerOfTen e).2 % (scale * (powerOfTen e).1))) (scale * (powerOfTen e).1) := rfl

seal onGrid?

/-- What is found on a grid reads back, and if the neighbour below reads back, something is found. -/
lemma onGrid?_spec (bits units : Nat) (e : Int) :
    (∀ coefficient, onGrid? bits units e = some coefficient → readBack coefficient e = bits)
      ∧ (readBack (units * (powerOfTen e).2 / (scale * (powerOfTen e).1)) e = bits →
        (onGrid? bits units e).isSome = true) := by
  rw [onGrid?_eq]
  generalize units * (powerOfTen e).2 / (scale * (powerOfTen e).1) = below
  rcases nearer?_cases (readBack below e == bits) (readBack (below + 1) e == bits) below
      (2 * (units * (powerOfTen e).2 % (scale * (powerOfTen e).1))) (scale * (powerOfTen e).1)
    with ⟨hlower, h⟩ | ⟨hlower, h⟩ | ⟨hupper, h⟩
  · rw [h]
    exact ⟨by simp, fun hread => absurd hread (beq_eq_false_iff_ne.mp hlower)⟩
  · rw [h]
    exact ⟨fun _ heq => Option.some.inj heq ▸ beq_iff_eq.mp hlower, fun _ => rfl⟩
  · rw [h]
    exact ⟨fun _ heq => Option.some.inj heq ▸ beq_iff_eq.mp hupper, fun _ => rfl⟩

lemma twoTo_dvd_tenTo {k n : Nat} (h : k ≤ n) : twoTo k ∣ tenTo n := by
  have htwo : 2 ^ k ∣ 10 ^ k := pow_dvd_pow_of_dvd (by decide) k
  exact htwo.trans (pow_dvd_pow 10 h)

/-- The grid of a power of ten below the least double holds every double. -/
lemma onGrid?_exact (hbits : bits < infinityBits) (he : e ≤ -1074) :
    (onGrid? bits (unitsOfMagnitude bits) e).isSome = true := by
  obtain ⟨r, hr⟩ : scale ∣ tenTo e.natAbs := by
    rw [scale]
    exact twoTo_dvd_tenTo (by omega)
  have hpower : powerOfTen e = (1, scale * r) := by
    rw [← hr]
    exact if_pos (by omega)
  have hpos : 0 < scale * r := by
    rw [← hr]
    exact Nat.pow_pos (by decide)
  have hbelow : unitsOfMagnitude bits * (scale * r) / (scale * 1) = unitsOfMagnitude bits * r := by
    rw [Nat.mul_one, Nat.mul_left_comm, Nat.mul_div_cancel_left _ scale_pos]
  have hexact : unitsOfMagnitude bits * r * 1 * scale = unitsOfMagnitude bits * (scale * r) := by
    rw [Nat.mul_one, Nat.mul_assoc, Nat.mul_comm r]
  apply (onGrid?_spec _ _ _).2
  rw [hpower, hbelow, readBack_eq, hpower, hexact]
  exact nearestMagnitude_units hbits hpos

/-! ## The search -/

lemma search_succ : search bits units leading (fuel + 1) count
    = ((onGrid? bits units (leading - count + 1)).map (·, leading - count + 1)
      <|> search bits units leading fuel (count + 1)) := rfl

/-- The search stops at a grid on which it finds something, the first one or a finer one. -/
lemma search_spec : ∀ {fuel count : Nat},
    (∃ k < fuel, (onGrid? bits units (leading - (count + k : Nat) + 1)).isSome = true) →
    ∃ coefficient e, search bits units leading fuel count = some (coefficient, e)
      ∧ onGrid? bits units e = some coefficient ∧ e ≤ leading - count + 1 := by
  intro fuel
  induction fuel with
  | zero =>
      rintro count ⟨k, hk, -⟩
      omega
  | succ fuel ih =>
      rintro count ⟨k, hk, hsome⟩
      rw [search_succ]
      cases hgrid : onGrid? bits units (leading - count + 1) with
      | some coefficient => exact ⟨coefficient, _, rfl, hgrid, le_rfl⟩
      | none =>
          cases k with
          | zero =>
              rw [Nat.add_zero, hgrid] at hsome
              cases hsome
          | succ k =>
              rw [← Nat.add_assoc, Nat.add_right_comm] at hsome
              obtain ⟨coefficient, e, hsearch, hfound, hle⟩ := ih ⟨k, by omega, hsome⟩
              exact ⟨coefficient, e, hsearch, hfound, by omega⟩

lemma length_digitsOf_le {n k : Nat} (hk : 0 < k) (h : n < 10 ^ k) : (digitsOf n).length ≤ k :=
  (Nat.length_toDigits_le_iff (by decide) hk).mpr h

lemma significand_lt {m shift : Nat} (hm : m < 2 ^ 53) (hshift : shift ≤ 2046) :
    m * 2 ^ shift < 10 ^ (4 * 79) * scale := by
  have hpow : 2 ^ (13 * 79) ≤ 10 ^ (4 * 79) := by
    rw [Nat.pow_mul, Nat.pow_mul]
    exact Nat.pow_le_pow_left (by decide) 79
  have hscale : scale = 2 ^ 1074 := by rw [scale, twoTo_eq]
  rw [hscale]
  calc m * 2 ^ shift < 2 ^ 53 * 2 ^ shift := Nat.mul_lt_mul_of_pos_right hm (by positivity)
    _ ≤ 2 ^ (13 * 79) * 2 ^ 1074 := by
        rw [← Nat.pow_add, ← Nat.pow_add]
        exact Nat.pow_le_pow_right (by decide) (by omega)
    _ ≤ 10 ^ (4 * 79) * 2 ^ 1074 := Nat.mul_le_mul_right _ hpow

/-- No finite double reaches `10 ^ 316`. -/
lemma leadingExponent_le (hbits : bits < infinityBits) :
    leadingExponent (unitsOfMagnitude bits) ≤ 315 := by
  obtain ⟨m, shift, hunits, hshift, hm, -⟩ := exists_significand bits
  have hbound : shift ≤ 2046 := by
    by_contra hgt
    have hge := Nat.mul_le_mul_right binade (show 2047 ≤ shift by omega)
    rw [infinityBits] at hbits
    omega
  have hlt : unitsOfMagnitude bits / scale < 10 ^ (4 * 79) := by
    rw [Nat.div_lt_iff_lt_mul scale_pos, hunits]
    exact significand_lt hm hbound
  have hlength := length_digitsOf_le (by decide) hlt
  unfold leadingExponent
  split <;> omega

/-! ## Digits -/

/-- Every character is a decimal digit. -/
def Digits (digits : List Char) : Prop := ∀ c ∈ digits, c.isDigit = true

variable {digits more : List Char}

lemma Digits.append (h : Digits digits) (hmore : Digits more) : Digits (digits ++ more) :=
  List.forall_mem_append.mpr ⟨h, hmore⟩

lemma Digits.take {n : Nat} (h : Digits digits) : Digits (digits.take n) :=
  fun c hc => h c (List.mem_of_mem_take hc)

lemma Digits.drop {n : Nat} (h : Digits digits) : Digits (digits.drop n) :=
  fun c hc => h c (List.mem_of_mem_drop hc)

lemma digits_replicate (n : Nat) : Digits (List.replicate n '0') := by
  intro c hc
  rw [List.eq_of_mem_replicate hc]
  rfl

lemma digits_digitsOf (n : Nat) : Digits (digitsOf n) :=
  fun _ hc => Nat.isDigit_of_mem_toDigits (by decide) le_rfl hc

lemma Digits.natOfDigits_eq (h : Digits digits) : natOfDigits 10 digits = Nat.ofDigitChars 10 digits 0 := by
  rw [natOfDigits, Nat.ofDigitChars_eq_foldl]
  refine List.foldl_ext _ _ _ fun n c hc => ?_
  rw [digitValue, if_pos (h c hc), Nat.mul_comm]

lemma natOfDigits_digitsOf (n : Nat) : natOfDigits 10 (digitsOf n) = n := by
  rw [(digits_digitsOf n).natOfDigits_eq]
  exact Nat.ofDigitChars_ten_toDigits

/-- Zeros at the end multiply by powers of ten. -/
lemma natOfDigits_append_zeros (h : Digits digits) (zeros : Nat) :
    natOfDigits 10 (digits ++ List.replicate zeros '0') = natOfDigits 10 digits * 10 ^ zeros := by
  rw [(h.append (digits_replicate zeros)).natOfDigits_eq, h.natOfDigits_eq, Nat.ofDigitChars_append,
    Nat.ofDigitChars_replicate_zero, Nat.mul_comm]

/-- Zeros in front do not count. -/
lemma natOfDigits_zeros_append (zeros : Nat) (h : Digits digits) :
    natOfDigits 10 (List.replicate zeros '0' ++ digits) = natOfDigits 10 digits := by
  rw [((digits_replicate zeros).append h).natOfDigits_eq, h.natOfDigits_eq, Nat.ofDigitChars_append,
    Nat.ofDigitChars_replicate_zero, Nat.mul_zero]

/-- The zeros at the end that were dropped. -/
lemma dropTrailingZeros_append (digits : List Char) :
    ∃ zeros, dropTrailingZeros digits ++ List.replicate zeros '0' = digits := by
  have hzeros : digits.reverse.takeWhile (· == '0')
      = List.replicate (digits.reverse.takeWhile (· == '0')).length '0' :=
    List.eq_replicate_of_mem fun c hc => by simpa using List.mem_takeWhile_imp hc
  have hsplit := List.takeWhile_append_dropWhile (p := (· == '0')) (l := digits.reverse)
  refine ⟨(digits.reverse.takeWhile (· == '0')).length, ?_⟩
  calc dropTrailingZeros digits ++ List.replicate (digits.reverse.takeWhile (· == '0')).length '0'
      = (List.replicate (digits.reverse.takeWhile (· == '0')).length '0'
          ++ digits.reverse.dropWhile (· == '0')).reverse := by
        rw [List.reverse_append, List.reverse_replicate, dropTrailingZeros]
    _ = digits := by rw [← hzeros, hsplit, List.reverse_reverse]

/-! ## Reading back -/

/-- The bit pattern that a decimal reads back as. -/
def bitsOf (d : Decimal) : Nat :=
  readBack (natOfDigits 10 d.digits) (d.exponent + 1 - d.digits.length)

/-- The zeros that a decimal leaves out change nothing. -/
lemma bitsOf_ofCoefficient (coefficient : Nat) (e : Int) :
    bitsOf (ofCoefficient coefficient e) = readBack coefficient e := by
  obtain ⟨zeros, hzeros⟩ := dropTrailingZeros_append (digitsOf coefficient)
  have hdigits : Digits (dropTrailingZeros (digitsOf coefficient)) := fun c hc =>
    digits_digitsOf coefficient c (hzeros ▸ List.mem_append_left _ hc)
  have hlength : (dropTrailingZeros (digitsOf coefficient)).length + zeros
      = (digitsOf coefficient).length := by
    rw [← List.length_replicate (n := zeros) (a := '0'), ← List.length_append, hzeros]
  have hvalue : natOfDigits 10 (dropTrailingZeros (digitsOf coefficient)) * 10 ^ zeros = coefficient := by
    rw [← natOfDigits_append_zeros hdigits, hzeros, natOfDigits_digitsOf]
  have hexponent : e + (digitsOf coefficient).length - 1 + 1
      - (dropTrailingZeros (digitsOf coefficient)).length = e + zeros := by omega
  calc bitsOf (ofCoefficient coefficient e)
      = readBack (natOfDigits 10 (dropTrailingZeros (digitsOf coefficient))) (e + zeros) := by
        rw [← hexponent]
        rfl
    _ = readBack coefficient e := by rw [← readBack_mul_pow, hvalue]

/-- The digits of a number other than zero are not all zeros. -/
lemma digits_ofCoefficient (hcoefficient : coefficient ≠ 0) :
    Digits (ofCoefficient coefficient e).digits ∧ (ofCoefficient coefficient e).digits ≠ [] := by
  obtain ⟨zeros, hzeros⟩ := dropTrailingZeros_append (digitsOf coefficient)
  refine ⟨fun c hc => digits_digitsOf coefficient c (hzeros ▸ List.mem_append_left _ hc), ?_⟩
  intro hnil
  change dropTrailingZeros (digitsOf coefficient) = [] at hnil
  apply hcoefficient
  calc coefficient = natOfDigits 10 (List.replicate zeros '0' ++ []) := by
        rw [← natOfDigits_digitsOf coefficient, ← hzeros, hnil, List.append_nil, List.nil_append]
    _ = 0 := natOfDigits_zeros_append zeros (by simp [Digits])

/-- The shortest decimal is found on a grid. -/
lemma shortest_spec (hfinite : magnitude x < infinityBits) : ∃ coefficient e,
    shortest x = ofCoefficient coefficient e ∧ onGrid? (magnitude x) (Double.units x) e = some coefficient
      ∧ e ≤ leadingExponent (Double.units x) := by
  have hleading : leadingExponent (Double.units x) ≤ 315 := leadingExponent_le hfinite
  have hexact : ∃ k < maxDigits, (onGrid? (magnitude x) (Double.units x)
      (leadingExponent (Double.units x) - (1 + k : Nat) + 1)).isSome = true :=
    ⟨1399, by decide, onGrid?_exact hfinite (by omega)⟩
  obtain ⟨coefficient, e, hsearch, hgrid, hle⟩ := search_spec hexact
  refine ⟨coefficient, e, ?_, hgrid, by omega⟩
  simp only [shortest, hsearch, Option.elim_some]

/-- Zero would read back as zero. -/
lemma coefficient_ne_zero (hgrid : onGrid? (magnitude x) units e = some coefficient)
    (hzero : magnitude x ≠ 0) : coefficient ≠ 0 := by
  have hread := (onGrid?_spec _ _ _).1 coefficient hgrid
  rintro rfl
  exact hzero (hread.symm.trans (readBack_zero e))

/-- **The shortest decimal of a double reads back as that double.** -/
theorem bitsOf_shortest (hfinite : magnitude x < infinityBits) (hzero : magnitude x ≠ 0) :
    bitsOf (shortest x) = magnitude x ∧ Digits (shortest x).digits ∧ (shortest x).digits ≠ [] := by
  obtain ⟨coefficient, e, hshortest, hgrid, -⟩ := shortest_spec hfinite
  rw [hshortest, bitsOf_ofCoefficient]
  exact ⟨(onGrid?_spec _ _ _).1 coefficient hgrid,
    digits_ofCoefficient (coefficient_ne_zero hgrid hzero)⟩

end KScript.Decimal

import KScript.Proofs.Number.Nearest
import KScript.Proofs.Text.Quoted
import KScript.Proofs.Token.Lexed
import KScript.Proofs.Token.Seam

/-!
# One number in three bases

A natural number is written in base ten, two or sixteen, with zeros in front and letters in either case
(`Spells`).  A decimal numeral is rounded as a quotient and a numeral after `0b` or `0x` as a whole number.
Both are the double nearest to the number that the digits spell, so it does not matter which is written.
-/

namespace KScript

open Decimal Scan

/-- The digits are those of the number in that base, with any zeros in front and in either case. -/
def Spells (base n : Nat) (digits : List Char) : Prop :=
  ∃ zeros, digits.map Char.toLower = List.replicate zeros '0' ++ Nat.toDigits base n

/-- What stands before the digits of a numeral, and the base that it tells. -/
def numeralForms : List (List Char × Nat) := [([], 10), (['0', 'b'], 2), (['0', 'x'], 16)]

/-! ## Digits in either case -/

lemma isUpper_cases {c : Char} (h : c.isUpper = true) : ∃ k < 26, c = Char.ofNat (65 + k) := by
  have hrange : 65 ≤ c.toNat ∧ c.toNat ≤ 90 := by
    simpa [Char.isUpper, UInt32.le_iff_toNat_le] using h
  refine ⟨c.toNat - 65, by omega, ?_⟩
  rw [Nat.add_sub_of_le hrange.1, Char.ofNat_toNat]

/-- A property of characters that no capital tells from its small letter. -/
lemma eq_toLower {α : Type} {f : Char → α}
    (h : ∀ k < 26, f (Char.ofNat (65 + k)).toLower = f (Char.ofNat (65 + k))) (c : Char) :
    f c.toLower = f c := by
  by_cases hupper : c.isUpper = true
  · obtain ⟨k, hk, rfl⟩ := isUpper_cases hupper
    exact h k hk
  · have hsame : c.toLower = c := by
      rw [Char.toLower, dif_neg]
      simpa [Char.isUpper] using hupper
    rw [hsame]

lemma natOfDigits_map_toLower (base : Nat) (digits : List Char) :
    natOfDigits base (digits.map Char.toLower) = natOfDigits base digits := by
  have hvalue : ∀ c : Char, digitValue c.toLower = digitValue c := eq_toLower (by decide)
  simp only [natOfDigits, List.foldl_map, hvalue]

lemma exists_digitChar {base n : Nat} (hbase : 1 < base) :
    ∀ c ∈ Nat.toDigits base n, ∃ k < base, c = k.digitChar := by
  induction n using Nat.strongRecOn with
  | ind n ih =>
      by_cases hn : n < base
      · intro c hc
        rw [Nat.toDigits_of_lt_base hn, List.mem_singleton] at hc
        exact ⟨n, hn, hc⟩
      · have hge : base ≤ n := Nat.le_of_not_lt hn
        intro c hc
        rw [Nat.toDigits_of_base_le hbase hge, List.mem_append, List.mem_singleton] at hc
        rcases hc with hc | rfl
        · exact ih (n / base) (Nat.div_lt_self (by omega) hbase) c hc
        · exact ⟨n % base, Nat.mod_lt _ (by omega), rfl⟩

/-- The digits after the mark of a base are those of the base, in either case. -/
lemma digits_of_mem_bases : ∀ entry ∈ bases, 1 < entry.2.1 ∧ entry.2.1 ≤ 16
    ∧ (∀ c : Char, entry.2.2 c.toLower = entry.2.2 c)
    ∧ ∀ k < entry.2.1, entry.2.2 k.digitChar = true := by
  simp only [bases, List.forall_mem_cons]
  refine ⟨⟨by decide, by decide, eq_toLower (by decide), by decide⟩,
    ⟨by decide, by decide, eq_toLower (by decide), by decide⟩, by simp⟩

/-! ## Spelled numbers -/

namespace Spells

variable {base n : Nat} {digits : List Char}

lemma ne_nil (h : Spells base n digits) : digits ≠ [] := by
  rintro rfl
  obtain ⟨zeros, hdigits⟩ := h
  have hnil := (List.append_eq_nil_iff.mp hdigits.symm).2
  exact Nat.toDigits_ne_nil hnil

/-- Every digit is a digit of the base. -/
lemma forall_mem (h : Spells base n digits) (hbase : 1 < base) {isBaseDigit : Char → Bool}
    (hcase : ∀ c : Char, isBaseDigit c.toLower = isBaseDigit c)
    (hdigit : ∀ k < base, isBaseDigit k.digitChar = true) : ∀ c ∈ digits, isBaseDigit c = true := by
  intro c hc
  obtain ⟨zeros, hdigits⟩ := h
  have hmem : c.toLower ∈ List.replicate zeros '0' ++ Nat.toDigits base n :=
    hdigits ▸ List.mem_map_of_mem hc
  rw [← hcase c]
  rcases List.mem_append.mp hmem with hzero | hmem
  · rw [List.eq_of_mem_replicate hzero]
    exact hdigit 0 (by omega)
  · obtain ⟨k, hk, hkc⟩ := exists_digitChar hbase _ hmem
    rw [hkc]
    exact hdigit k hk

/-- The digits are read as the number. -/
lemma natOfDigits_eq (h : Spells base n digits) (hbase : 1 < base) (hle : base ≤ 16) :
    natOfDigits base digits = n := by
  obtain ⟨zeros, hdigits⟩ := h
  rw [← natOfDigits_map_toLower, hdigits, Text.natOfDigits_zeros_append,
    Text.natOfDigits_toDigits hbase hle]

/-- After the mark of a base the text is a numeral for the nearest double. -/
lemma numeral_based {mark : Char} {isBaseDigit : Char → Bool} (h : Spells base n digits)
    (hmem : (mark, base, isBaseDigit) ∈ bases) : Numeral ('0' :: mark :: digits) (Double.ofNat n) := by
  obtain ⟨hbase, hle, hcase, hdigit⟩ := digits_of_mem_bases _ hmem
  have hnumeral := Numeral.based hmem h.ne_nil (h.forall_mem hbase hcase hdigit)
  rwa [h.natOfDigits_eq hbase hle] at hnumeral

/-- With nothing in front it is one for the same double. -/
lemma numeral_decimal (h : Spells 10 n digits) : Numeral digits (Double.ofNat n) := by
  have hdigits : ∀ d ∈ digits, d.isDigit = true :=
    h.forall_mem (by decide) (eq_toLower (by decide)) (by decide)
  have hnumeral := Numeral.decimal h.ne_nil hdigits
  rwa [h.natOfDigits_eq (by decide) (by decide)] at hnumeral

lemma numeral {form : List Char × Nat} (hform : form ∈ numeralForms) (h : Spells form.2 n digits) :
    Numeral (form.1 ++ digits) (Double.ofNat n) := by
  simp only [numeralForms, List.mem_cons, List.not_mem_nil, or_false] at hform
  rcases hform with rfl | rfl | rfl
  · exact h.numeral_decimal
  · exact h.numeral_based (show ('b', 2, isBinaryDigit) ∈ bases by simp [bases])
  · exact h.numeral_based (show ('x', 16, isHexDigit) ∈ bases by simp [bases])

end Spells

/-! ## Scanning a numeral -/

/-- A numeral alone is one token on the first line. -/
lemma Scan.ofSource_numeral {text : String} {x : Float} (h : Numeral text.toList x) :
    Scan.ofSource text = ⟨[⟨.number, text, some (.number x), 1⟩], 1, []⟩ := by
  have hline : lineAfter text.toList = 1 := by
    rw [lineAfter, List.count_eq_zero_of_not_mem (h.notMem_blank (by decide))]
  rw [Scan.ofSource_lexeme (.number h), hline]

/-- **The three forms of a numeral agree.**  For every natural number there is one double, the nearest to it
and infinite from the middle between the greatest double and the next power of two on, such that the number
written in base ten, after `0b` in base two or after `0x` in base sixteen, with any zeros in front and its
letters in either case, is scanned as a single number token with that value. -/
theorem Scan.numeral_forms_agree (n : Nat) : ∃ x : Float, Double.Nearest false n x
    ∧ (x = Double.infinity ↔ 2 ^ 1024 - 2 ^ 970 ≤ n)
    ∧ ∀ form ∈ numeralForms, ∀ digits : List Char, Spells form.2 n digits →
      Scan.ofSource (String.ofList (form.1 ++ digits))
        = ⟨[⟨.number, String.ofList (form.1 ++ digits), some (.number x), 1⟩], 1, []⟩ := by
  have hnearest : Double.Nearest false n (Double.ofNat n) := by
    rw [← div_one (n : ℚ), ← Nat.cast_one]
    exact Double.nearest_ofRatio false n Nat.one_pos
  have hcast {j k : Nat} (hjk : j ≤ k) : ((2 ^ k - 2 ^ j : Nat) : ℚ) = 2 ^ k - 2 ^ j := by
    rw [Nat.cast_sub (Nat.pow_le_pow_right Nat.two_pos hjk), Nat.cast_pow, Nat.cast_pow, Nat.cast_ofNat]
  refine ⟨Double.ofNat n, hnearest, ?_, fun form hform digits hdigits => ?_⟩
  · rw [hnearest.eq_infinity_iff, ← hcast (by decide)]
    exact Nat.cast_le
  · refine Scan.ofSource_numeral ?_
    rw [String.toList_ofList]
    exact hdigits.numeral hform

/-- Halfway between two doubles. -/
def tiedNumber : Nat := 2 ^ 53 + 171

theorem Scan.numeral_forms_agree_tiedNumber :
    (Spells 10 tiedNumber "009007199254741163".toList
      ∧ Spells 2 tiedNumber "0100000000000000000000000000000000000000000000010101011".toList
      ∧ Spells 16 tiedNumber "200000000000aB".toList)
    ∧ ∃ x : Float, Double.Nearest false tiedNumber x
      ∧ (Scan.ofSource "009007199254741163").tokens.map (·.literal) = [some (.number x)]
      ∧ (Scan.ofSource "0b0100000000000000000000000000000000000000000000010101011").tokens.map (·.literal)
        = [some (.number x)]
      ∧ (Scan.ofSource "0x200000000000aB").tokens.map (·.literal) = [some (.number x)] := by
  have hten : Spells 10 tiedNumber "009007199254741163".toList := ⟨2, by decide +kernel⟩
  have htwo : Spells 2 tiedNumber "0100000000000000000000000000000000000000000000010101011".toList :=
    ⟨1, by decide +kernel⟩
  have hsixteen : Spells 16 tiedNumber "200000000000aB".toList := ⟨0, by decide +kernel⟩
  obtain ⟨x, hnearest, -, hscan⟩ := Scan.numeral_forms_agree tiedNumber
  refine ⟨⟨hten, htwo, hsixteen⟩, x, hnearest, ?_, ?_, ?_⟩
  · exact congrArg (·.tokens.map (·.literal)) (hscan ([], 10) (by decide) _ hten)
  · exact congrArg (·.tokens.map (·.literal)) (hscan (['0', 'b'], 2) (by decide) _ htwo)
  · exact congrArg (·.tokens.map (·.literal)) (hscan (['0', 'x'], 16) (by decide) _ hsixteen)

end KScript

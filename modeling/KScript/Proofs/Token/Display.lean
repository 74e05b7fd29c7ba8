import KScript.Proofs.Number.Thresholds
import KScript.Proofs.Number.Written
import KScript.Proofs.Token.Bases
import KScript.Value.Text

/-!
# Displayed numbers are read back

What a decimal numeral denotes is written down as a grammar (`DecimalText`): perhaps a sign, digits, perhaps a
point with digits, and perhaps an `E` with an exponent.  A text is such a numeral in one way at most
(`DecimalText.unique`).  A finite double is displayed as a numeral to which it is the nearest double, and only
it.  Numbers that are neither too small nor too large are displayed without an exponent, and then the scanner
reads them back as well, unless they have a sign.
-/

namespace KScript

open Decimal Double

/-! ## Decimal numerals -/

/-- The signs that may stand before digits, and whether they make a number negative. -/
def signs : List (List Char × Bool) := [([], false), (['+'], false), (['-'], true)]

namespace DecimalText

/-- Perhaps a point and digits after it. -/
inductive Fraction : List Char → List Char → Prop where
  | none : Fraction [] []
  | point {decimals : List Char} (hne : decimals ≠ []) (hdecimals : Digits decimals) :
      Fraction ('.' :: decimals) decimals

/-- Perhaps an `E`, a sign and digits. -/
inductive Exponent : List Char → Int → Prop where
  | none : Exponent [] 0
  | marked {sign digits : List Char} {negative : Bool} (hsign : (sign, negative) ∈ signs)
      (hne : digits ≠ []) (hdigits : Digits digits) :
      Exponent ('E' :: (sign ++ digits))
        (if negative then -(Nat.ofDigitChars 10 digits 0) else Nat.ofDigitChars 10 digits 0)

end DecimalText

open DecimalText in
/-- The text is a decimal numeral with that sign for that magnitude. -/
inductive DecimalText : List Char → Bool → ℚ → Prop where
  | mk {sign whole fraction decimals exponent : List Char} {negative : Bool} {e : Int}
      (hsign : (sign, negative) ∈ signs) (hne : whole ≠ []) (hwhole : Digits whole)
      (hfraction : Fraction fraction decimals) (hexponent : Exponent exponent e) :
      DecimalText (sign ++ (whole ++ (fraction ++ exponent))) negative
        (Nat.ofDigitChars 10 (whole ++ decimals) 0 * 10 ^ (e - decimals.length))

/-- Read as a decimal numeral and rounded to the nearest double, the text gives `x`. -/
def Double.Reads (text : List Char) (x : Float) : Prop :=
  ∃ negative q, DecimalText text negative q ∧ Nearest negative q x

/-! ## Numerals are unambiguous -/

namespace DecimalText

/-- Where a run of characters of one class ends. -/
lemma run_append_inj (p : Char → Bool) {run run' rest rest' : List Char} (hrun : ∀ c ∈ run, p c = true)
    (hrun' : ∀ c ∈ run', p c = true) (hrest : ∀ c ∈ rest.head?, p c = false)
    (hrest' : ∀ c ∈ rest'.head?, p c = false) (h : run ++ rest = run' ++ rest') :
    run = run' ∧ rest = rest' := by
  have hspan := Written.span_run hrun hrest
  rw [h, Written.span_run hrun' hrest'] at hspan
  exact ⟨(Prod.mk.inj hspan).1.symm, (Prod.mk.inj hspan).2.symm⟩

lemma isDigit_head {run rest : List Char} (hne : run ≠ []) (hrun : Digits run) :
    ∀ c ∈ (run ++ rest).head?, (!c.isDigit) = false := by
  obtain ⟨d, more, rfl⟩ := List.exists_cons_of_ne_nil hne
  intro c hc
  obtain rfl := Option.some.inj hc
  rw [hrun d List.mem_cons_self]
  rfl

/-- A sign ends where the digits begin. -/
lemma sign_append_inj {entry entry' : List Char × Bool} {run run' rest rest' : List Char}
    (hentry : entry ∈ signs) (hentry' : entry' ∈ signs) (hne : run ≠ []) (hrun : Digits run)
    (hne' : run' ≠ []) (hrun' : Digits run') (h : entry.1 ++ (run ++ rest) = entry'.1 ++ (run' ++ rest')) :
    entry = entry' ∧ run ++ rest = run' ++ rest' := by
  have hclass : ∀ entry ∈ signs, ∀ c ∈ entry.1, (!c.isDigit) = true := by simp [signs]
  have htell : ∀ entry ∈ signs, ∀ entry' ∈ signs, entry.1 = entry'.1 → entry = entry' := by decide
  obtain ⟨hsign, hrest⟩ := run_append_inj (!·.isDigit) (hclass _ hentry) (hclass _ hentry')
    (isDigit_head hne hrun) (isDigit_head hne' hrun') h
  exact ⟨htell _ hentry _ hentry' hsign, hrest⟩

/-- What follows the whole part does not begin with a digit. -/
lemma Exponent.head {exponent : List Char} {e : Int} (h : Exponent exponent e) :
    ∀ c ∈ exponent.head?, c = 'E' := by
  cases h with
  | none => simp
  | marked => simp

lemma Fraction.head {fraction decimals exponent : List Char} {e : Int} (h : Fraction fraction decimals)
    (hexponent : Exponent exponent e) : ∀ c ∈ (fraction ++ exponent).head?, c.isDigit = false := by
  cases h with
  | none =>
      intro c hc
      rw [hexponent.head c hc]
      rfl
  | point =>
      intro c hc
      obtain rfl := Option.some.inj hc
      rfl

lemma Exponent.unique {exponent : List Char} {e e' : Int} (h : Exponent exponent e)
    (h' : Exponent exponent e') : e = e' := by
  cases h with
  | none =>
      cases h'
      rfl
  | @marked sign digits negative hsign hne hdigits =>
      generalize htext : 'E' :: (sign ++ digits) = text at h'
      cases h' with
      | none => cases htext
      | @marked sign' digits' negative' hsign' hne' hdigits' =>
          have hrest := (List.cons.inj htext).2
          rw [← List.append_nil digits, ← List.append_nil digits'] at hrest
          obtain ⟨hentry, hsame⟩ := sign_append_inj hsign hsign' hne hdigits hne' hdigits' hrest
          rw [List.append_nil, List.append_nil] at hsame
          rw [(Prod.mk.inj hentry).2, hsame]

/-- The digits after the point and the exponent are told by what follows the whole part. -/
lemma Fraction.unique {fraction fraction' decimals decimals' exponent exponent' : List Char} {e e' : Int}
    (h : Fraction fraction decimals) (hexponent : Exponent exponent e)
    (h' : Fraction fraction' decimals') (hexponent' : Exponent exponent' e')
    (htext : fraction ++ exponent = fraction' ++ exponent') : decimals = decimals' ∧ e = e' := by
  have hpoint {tail rest : List Char} {k : Int} (hk : Exponent tail k) : tail ≠ '.' :: rest := by
    rintro rfl
    exact absurd (hk.head '.' rfl) (by decide)
  have hmark {tail : List Char} {k : Int} (hk : Exponent tail k) : ∀ c ∈ tail.head?, c.isDigit = false := by
    intro c hc
    rw [hk.head c hc]
    rfl
  cases h with
  | none =>
      cases h' with
      | none =>
          obtain rfl : exponent = exponent' := htext
          exact ⟨rfl, hexponent.unique hexponent'⟩
      | point => exact absurd htext (hpoint hexponent)
  | point _ hdecimals =>
      cases h' with
      | none => exact absurd htext.symm (hpoint hexponent')
      | point _ hdecimals' =>
          obtain ⟨rfl, rfl⟩ := run_append_inj Char.isDigit hdecimals hdecimals' (hmark hexponent)
            (hmark hexponent') (List.cons.inj htext).2
          exact ⟨rfl, hexponent.unique hexponent'⟩

/-- **A text is a decimal numeral in one way at most.** -/
theorem unique {text : List Char} {negative negative' : Bool} {q q' : ℚ} (h : DecimalText text negative q)
    (h' : DecimalText text negative' q') : negative = negative' ∧ q = q' := by
  obtain @⟨sign, whole, fraction, _, exponent, _, _, hsign, hne, hwhole, hfraction, hexponent⟩ := h
  generalize htext : sign ++ (whole ++ (fraction ++ exponent)) = text at h'
  obtain ⟨hsign', hne', hwhole', hfraction', hexponent'⟩ := h'
  obtain ⟨hentry, hrest⟩ := sign_append_inj hsign hsign' hne hwhole hne' hwhole' htext
  obtain ⟨rfl, htail⟩ := run_append_inj Char.isDigit hwhole hwhole' (hfraction.head hexponent)
    (hfraction'.head hexponent') hrest
  obtain ⟨rfl, rfl⟩ := hfraction.unique hexponent hfraction' hexponent' htail
  exact ⟨(Prod.mk.inj hentry).2, rfl⟩

end DecimalText

/-! ## What is written -/

namespace Written

variable {w : Written}

/-- The magnitude of what is written. -/
def value (w : Written) : ℚ :=
  natOfDigits 10 (w.whole ++ w.fraction) * 10 ^ (w.exponent.getD 0 - w.fraction.length)

/-- What is written is rounded to the nearest double. -/
lemma nearest_bits (w : Written) (negative : Bool) :
    Nearest negative w.value (ofMagnitude negative w.bits) := by
  have hnearest := nearest_ofRatio negative
    (natOfDigits 10 (w.whole ++ w.fraction) * (powerOfTen (w.exponent.getD 0 - w.fraction.length)).1)
    (powerOfTen_pos (w.exponent.getD 0 - w.fraction.length)).2
  rw [Nat.cast_mul, mul_div_assoc, cast_powerOfTen] at hnearest
  exact hnearest

lemma exponent_text (exponent : Option Int) :
    DecimalText.Exponent (exponent.elim [] fun e => 'E' :: (Layout.exponentText e).toList)
      (exponent.getD 0) := by
  cases exponent with
  | none => exact .none
  | some e =>
      obtain ⟨digits, hdigits, hne, hvalue, htext⟩ := exponentText_eq e
      rw [hdigits.natOfDigits_eq] at hvalue
      simp only [Option.elim_some, Option.getD_some, htext]
      by_cases he : e < 0
      · have hsign : (['-'], true) ∈ signs := by simp [signs]
        have hmarked := DecimalText.Exponent.marked hsign hne hdigits
        rw [if_pos rfl, hvalue, show -(e.natAbs : Int) = e by omega] at hmarked
        rwa [if_pos he]
      · have hsign : (['+'], false) ∈ signs := by simp [signs]
        have hmarked := DecimalText.Exponent.marked hsign hne hdigits
        rw [if_neg (by decide), hvalue, show (e.natAbs : Int) = e by omega] at hmarked
        rwa [if_neg he]

/-- The text is a numeral for what is written. -/
lemma decimalText {sign : List Char} {negative : Bool} (hsign : (sign, negative) ∈ signs)
    (hw : w.Proper) : DecimalText (sign ++ w.text 'E') negative w.value := by
  obtain ⟨whole, fraction, exponent⟩ := w
  obtain ⟨hwhole, hfraction, hne⟩ := hw
  have hpoint : DecimalText.Fraction (if fraction.isEmpty then [] else '.' :: fraction) fraction := by
    cases fraction with
    | nil => exact .none
    | cons c fraction => exact .point (by simp) hfraction
  have hnumeral := DecimalText.mk hsign hne hwhole hpoint (exponent_text exponent)
  rw [← (hwhole.append hfraction).natOfDigits_eq] at hnumeral
  exact hnumeral

lemma readBack_decimals (n k : Nat) :
    ofMagnitude false (readBack n (0 - k)) = ofRatio false n (tenTo k) := by
  have hpower : powerOfTen (0 - k) = (1, tenTo k) := by
    cases k with
    | zero => rfl
    | succ k =>
        rw [powerOfTen, if_pos (by omega), show ((0 : Int) - (k + 1 : Nat)).natAbs = k + 1 by omega]
  rw [readBack_eq, hpower, Nat.mul_one]
  rfl

/-- Without an exponent the scanner reads it as well. -/
lemma numeral_text (hw : w.Proper) (hnone : w.exponent = none) (mark : Char) :
    Numeral (w.text mark) (ofMagnitude false w.bits) := by
  obtain ⟨whole, fraction, exponent⟩ := w
  obtain rfl : exponent = none := hnone
  have hbits : ofMagnitude false (Written.bits ⟨whole, fraction, none⟩)
      = ofRatio false (natOfDigits 10 (whole ++ fraction)) (tenTo fraction.length) :=
    readBack_decimals _ _
  rw [hbits]
  cases fraction with
  | nil =>
      have hnumeral := Numeral.decimal hw.nonempty hw.whole
      simpa [Written.text] using hnumeral
  | cons c fraction =>
      have hnumeral := Numeral.fraction hw.nonempty hw.whole (by simp) hw.fraction
      simpa [Written.text] using hnumeral

/-- The mark stands in the text if there is an exponent. -/
lemma mark_mem_text {mark : Char} (hdigit : mark.isDigit = false) (hpoint : mark ≠ '.') (hw : w.Proper) :
    mark ∈ w.text mark ↔ w.exponent.isSome = true := by
  have hnot {digits : List Char} (h : Digits digits) : mark ∉ digits := fun hmem => by
    rw [h mark hmem] at hdigit
    cases hdigit
  obtain ⟨whole, fraction, exponent⟩ := w
  have hfraction : mark ∉ (if fraction.isEmpty then [] else '.' :: fraction) := by
    split
    · simp
    · simp [hpoint, hnot hw.fraction]
  rw [Written.text, List.mem_append, List.mem_append, or_iff_right (hnot hw.whole), or_iff_right hfraction]
  cases exponent <;> simp

end Written

/-! ## What is displayed -/

section Display

variable {x : Float}

lemma Layout.exponent_positionalForm (layout : Layout) (d : Decimal) :
    (layout.positionalForm d).exponent = none := by
  unfold Layout.positionalForm
  split <;> rfl

/-- The scientific form has an exponent, and the positional form has none. -/
lemma Layout.exponent_choice (layout : Layout) (d : Decimal) :
    (if layout.positionalFrom ≤ d.exponent ∧ d.exponent < layout.positionalBelow
      then layout.positionalForm d else layout.scientificForm d).exponent.isSome = true
      ↔ ¬(layout.positionalFrom ≤ d.exponent ∧ d.exponent < layout.positionalBelow) := by
  split
  · next hrange =>
    rw [layout.exponent_positionalForm]
    exact iff_of_false (by simp) (not_not.mpr hrange)
  · next hrange => exact iff_of_true rfl hrange

lemma Layout.exponent_form (layout : Layout) (x : Float) :
    (layout.form x).exponent.isSome = true ↔ magnitude x ≠ 0
      ∧ ¬(layout.positionalFrom ≤ (shortest x).exponent
        ∧ (shortest x).exponent < layout.positionalBelow) := by
  by_cases hzero : magnitude x = 0
  · rw [Layout.form, if_pos hzero, layout.exponent_positionalForm]
    exact iff_of_false (by simp) fun h => h.1 hzero
  · -- a decimal of a variable double is never to be computed, so the choice is left as it is
    have hform : layout.form x = if layout.positionalFrom ≤ (shortest x).exponent
        ∧ (shortest x).exponent < layout.positionalBelow
          then layout.positionalForm (shortest x) else layout.scientificForm (shortest x) := if_neg hzero
    rw [hform, and_iff_right hzero]
    exact layout.exponent_choice (shortest x)

/-- An exponent is displayed with very small and very large numbers. -/
lemma Layout.exponent_display (hfinite : magnitude x < infinityBits) :
    (Layout.display.form x).exponent.isSome = true
      ↔ (0 < size x ∧ size x < 10 ^ (-4 : Int)) ∨ 10 ^ (15 : Int) ≤ size x := by
  have hform : (Layout.display.form x).exponent.isSome = true ↔ magnitude x ≠ 0
      ∧ ¬(-4 ≤ (shortest x).exponent ∧ (shortest x).exponent < 15) := Layout.display.exponent_form x
  rw [hform]
  by_cases hzero : magnitude x = 0
  · rw [size_of_magnitude_zero hzero]
    refine iff_of_false (fun h => h.1 hzero) ?_
    norm_num
  · have hsmall : -4 ≤ (shortest x).exponent ↔ (10 : ℚ) ^ (-4 : Int) ≤ size x :=
      le_exponent_iff le_readBack_minus_four hfinite hzero
    have hlarge : 15 ≤ (shortest x).exponent ↔ (10 : ℚ) ^ (15 : Int) ≤ size x :=
      le_exponent_iff le_readBack_fifteen hfinite hzero
    rw [and_iff_right hzero, and_iff_right (size_pos hzero), ← hlarge, not_and_or, not_lt, hsmall, not_le]

lemma Value.toList_display (hfinite : magnitude x < infinityBits) :
    (Value.number x).display.toList
      = (if isNegative x then ['-'] else []) ++ (Layout.display.form x).text 'E' :=
  Layout.display.toList_text rfl hfinite

/-- **Displayed numbers are read back.**  What is displayed for a finite double is a decimal numeral to which
it is the nearest double, ties to even and the sign of zero included, and no other one is.  There is an
exponent in it exactly if the number is below `10 ^ -4`, without being zero, or from `10 ^ 15` on.  For the
numbers between, and for zero, if they have no sign, the scanner takes what is displayed as a single token
with that value. -/
theorem Value.displayed_number_reads (x : Float) (hx : x.isFinite = true) :
    (∀ y : Float, Double.Reads (Value.number x).display.toList y ↔ y = x)
    ∧ ('E' ∈ (Value.number x).display.toList
      ↔ (0 < size x ∧ size x < 10 ^ (-4 : Int)) ∨ 10 ^ (15 : Int) ≤ size x)
    ∧ (isNegative x = false → size x = 0 ∨ (10 ^ (-4 : Int) ≤ size x ∧ size x < 10 ^ (15 : Int)) →
      Scan.ofSource (Value.number x).display
        = ⟨[⟨.number, (Value.number x).display, some (.number x), 1⟩], 1, []⟩) := by
  have hfinite : magnitude x < infinityBits := (sort_iff x).1.mp hx
  have hmark : Layout.display.mark = String.singleton 'E' := rfl
  obtain ⟨hproper, hbits, -⟩ := Layout.display.form_spec hmark hfinite
  have hvalue : ofMagnitude (isNegative x) (Layout.display.form x).bits = x := by
    rw [hbits, ofMagnitude_magnitude]
  rw [Value.toList_display hfinite]
  refine ⟨fun y => ?_, ?_, fun hsign hsize => ?_⟩
  · have hsign : ((if isNegative x then ['-'] else []), isNegative x) ∈ signs := by
      cases isNegative x <;> decide
    have htext := Written.decimalText hsign hproper
    have hnearest := (Layout.display.form x).nearest_bits (isNegative x)
    rw [hvalue] at hnearest
    constructor
    · rintro ⟨negative, q, htext', hnearest'⟩
      obtain ⟨rfl, rfl⟩ := htext.unique htext'
      exact hnearest'.unique hnearest
    · rintro rfl
      exact ⟨_, _, htext, hnearest⟩
  · have hsign : 'E' ∉ (if isNegative x then ['-'] else []) := by
      cases isNegative x <;> decide
    rw [List.mem_append, or_iff_right hsign, Written.mark_mem_text (by decide) (by decide) hproper,
      Layout.exponent_display hfinite]
  · have hnone : (Layout.display.form x).exponent = none := by
      rw [← Option.not_isSome_iff_eq_none, Layout.exponent_display hfinite]
      rintro (⟨hpos, hsmall⟩ | hlarge)
      · rcases hsize with hzero | ⟨hle, -⟩ <;> linarith
      · rcases hsize with hzero | ⟨-, hlt⟩
        · rw [hzero] at hlarge
          norm_num at hlarge
        · linarith
    have hnumeral := Written.numeral_text hproper hnone 'E'
    rw [← hsign, hvalue] at hnumeral
    refine Scan.ofSource_numeral ?_
    rw [Value.toList_display hfinite, hsign]
    exact hnumeral

end Display

/-- The sum of a tenth and two tenths, which takes seventeen digits. -/
def threeTenths : Float := ofMagnitude false 4599075939470750516

theorem Value.displayed_number_reads_threeTenths :
    threeTenths.isFinite = true
    ∧ (Value.number threeTenths).display = "0.30000000000000004"
    ∧ (∀ y : Float, Double.Reads "0.30000000000000004".toList y ↔ y = threeTenths)
    ∧ Scan.ofSource "0.30000000000000004"
      = ⟨[⟨.number, "0.30000000000000004", some (.number threeTenths), 1⟩], 1, []⟩ := by
  have hfinite : threeTenths.isFinite = true := by decide +kernel
  have hdisplay : (Value.number threeTenths).display = "0.30000000000000004" := by decide +kernel
  obtain ⟨hreads, hmark, hscan⟩ := Value.displayed_number_reads threeTenths hfinite
  rw [hdisplay] at hreads hmark hscan
  have hpos : 0 < size threeTenths := size_pos (by decide +kernel)
  obtain ⟨hsmall, hlarge⟩ := not_or.mp (mt hmark.mpr (by decide))
  have hrange : 10 ^ (-4 : Int) ≤ size threeTenths := not_lt.mp fun hlt => hsmall ⟨hpos, hlt⟩
  exact ⟨hfinite, hdisplay, hreads, hscan (by decide +kernel) (.inr ⟨hrange, not_le.mp hlarge⟩)⟩

end KScript

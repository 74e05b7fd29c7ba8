import KScript.Number.Layout
import KScript.Proofs.Number.Shortest

/-!
# Numbers as they are written

A numeral is some digits, perhaps digits after a point, and perhaps an exponent (`Written`).  Its parts can
be read off its text (`Written.ofText_text`), and each form that a layout gives a decimal stands for that
decimal (`Layout.bits_positionalForm`, `Layout.bits_scientificForm`).  So what a layout writes for a finite
double is read back as that double, its sign included (`Layout.ofNumeral_text`).
-/

namespace KScript

open Decimal

/-! ## Numerals -/

/-- A number as it is written: digits, digits after a point and an exponent. -/
structure Written where
  whole : List Char
  fraction : List Char
  exponent : Option Int

namespace Written

/-- The text of a numeral, where `mark` stands before the exponent. -/
def text (mark : Char) (w : Written) : List Char :=
  w.whole ++ ((if w.fraction.isEmpty then [] else '.' :: w.fraction)
    ++ w.exponent.elim [] fun e => mark :: (Layout.exponentText e).toList)

/-- The bit pattern nearest to what is written. -/
def bits (w : Written) : Nat :=
  readBack (natOfDigits 10 (w.whole ++ w.fraction)) (w.exponent.getD 0 - w.fraction.length)

/-- There is a digit in front, and there are only digits. -/
structure Proper (w : Written) : Prop where
  whole : Digits w.whole
  fraction : Digits w.fraction
  nonempty : w.whole ≠ []

/-- The digits after a point, and what follows them. -/
def cutFraction : List Char → List Char × List Char
  | '.' :: rest => rest.span Char.isDigit
  | rest => ([], rest)

/-- An exponent with its mark and its sign. -/
def readExponent (mark : Char) : List Char → Option Int
  | c :: '-' :: digits => if c = mark then some (-(natOfDigits 10 digits)) else none
  | c :: '+' :: digits => if c = mark then some (natOfDigits 10 digits) else none
  | _ => none

/-- The parts of a numeral. -/
def ofText (mark : Char) (text : List Char) : Written :=
  let first := text.span Char.isDigit
  let second := cutFraction first.2
  ⟨first.1, second.1, readExponent mark second.2⟩

/-! ## Reading a numeral -/

variable {mark : Char} {w : Written}

/-- A run of characters of one class ends where another class begins. -/
lemma span_run {p : Char → Bool} {run rest : List Char} (hrun : ∀ c ∈ run, p c = true)
    (hrest : ∀ c ∈ rest.head?, p c = false) : (run ++ rest).span p = (run, rest) := by
  rw [List.span_eq_takeWhile_dropWhile, List.takeWhile_append_of_pos hrun,
    List.dropWhile_append_of_pos hrun]
  cases rest with
  | nil => simp
  | cons c rest => simp [hrest c rfl]

/-- An exponent is written with a sign and two digits or more. -/
lemma exponentText_eq (e : Int) : ∃ digits, Digits digits ∧ digits ≠ []
    ∧ natOfDigits 10 digits = e.natAbs
    ∧ (Layout.exponentText e).toList = (if e < 0 then '-' else '+') :: digits := by
  have hdigits : (toString e.natAbs).toList = digitsOf e.natAbs := by
    rw [Nat.toString_eq_ofList_toDigits, String.toList_ofList]
    rfl
  by_cases hshort : (toString e.natAbs).length < 2
  · refine ⟨'0' :: digitsOf e.natAbs, ?_, by simp, ?_, ?_⟩
    · exact (digits_replicate 1).append (digits_digitsOf _)
    · exact (natOfDigits_zeros_append 1 (digits_digitsOf _)).trans (natOfDigits_digitsOf _)
    · rw [Layout.exponentText]
      simp only [if_pos hshort, String.toList_append, hdigits]
      split <;> rfl
  · refine ⟨digitsOf e.natAbs, digits_digitsOf _, Nat.toDigits_ne_nil, natOfDigits_digitsOf _, ?_⟩
    rw [Layout.exponentText]
    simp only [if_neg hshort, String.toList_append, hdigits]
    split <;> rfl

lemma readExponent_text (mark : Char) (exponent : Option Int) :
    readExponent mark (exponent.elim [] fun e => mark :: (Layout.exponentText e).toList) = exponent := by
  cases exponent with
  | none => rfl
  | some e =>
      obtain ⟨digits, -, -, hvalue, htext⟩ := exponentText_eq e
      simp only [Option.elim_some, htext]
      split
      · simp only [readExponent, if_true, hvalue, Option.some.injEq]
        omega
      · simp only [readExponent, if_true, hvalue, Option.some.injEq]
        omega

/-- The digits after a point end where something else follows. -/
lemma cutFraction_text {fraction tail : List Char} (hfraction : Digits fraction)
    (htail : ∀ c ∈ tail.head?, c.isDigit = false ∧ c ≠ '.') :
    cutFraction ((if fraction.isEmpty then [] else '.' :: fraction) ++ tail) = (fraction, tail) := by
  cases fraction with
  | cons c fraction => exact span_run hfraction fun d hd => (htail d hd).1
  | nil =>
      cases tail with
      | nil => rfl
      | cons c tail =>
          change cutFraction (c :: tail) = ([], c :: tail)
          unfold cutFraction
          split
          · next h => exact absurd (List.cons.inj h).1 (htail c rfl).2
          · rfl

/-- **The parts of a numeral are told by its text.** -/
theorem ofText_text (hdigit : mark.isDigit = false) (hpoint : mark ≠ '.') (hw : w.Proper) :
    ofText mark (w.text mark) = w := by
  obtain ⟨whole, fraction, exponent⟩ := w
  obtain ⟨hwhole, hfraction, -⟩ := hw
  unfold ofText text
  have hexponent := readExponent_text mark exponent
  have htail : ∀ c ∈ (exponent.elim [] fun e => mark :: (Layout.exponentText e).toList).head?,
      c.isDigit = false ∧ c ≠ '.' := by
    cases exponent <;> simp [hdigit, hpoint]
  dsimp only at hwhole hfraction ⊢
  generalize (exponent.elim [] fun e => mark :: (Layout.exponentText e).toList) = tail at *
  have hcut := cutFraction_text hfraction htail
  have hafter : ∀ c ∈ ((if fraction.isEmpty then [] else '.' :: fraction) ++ tail).head?,
      c.isDigit = false := by
    cases fraction with
    | nil => exact fun c hc => (htail c hc).1
    | cons d fraction =>
        intro c hc
        obtain rfl := Option.some.inj hc
        rfl
  rw [span_run hwhole hafter, hcut, hexponent]

/-- What a numeral is made of. -/
lemma forall_mem_text {P : Char → Prop} (hdigit : ∀ c, c.isDigit = true → P c) (hpoint : P '.')
    (hminus : P '-') (hplus : P '+') (hmark : P mark) (hw : w.Proper) : ∀ c ∈ w.text mark, P c := by
  obtain ⟨whole, fraction, exponent⟩ := w
  have hwhole : ∀ c ∈ whole, P c := fun c hc => hdigit c (hw.whole c hc)
  have hfraction : ∀ c ∈ fraction, P c := fun c hc => hdigit c (hw.fraction c hc)
  simp only [text, List.forall_mem_append]
  refine ⟨hwhole, ?_, ?_⟩
  · split
    · simp
    · exact List.forall_mem_cons.mpr ⟨hpoint, hfraction⟩
  · cases exponent with
    | none => simp
    | some e =>
        obtain ⟨digits, hdigits, -, -, htext⟩ := exponentText_eq e
        simp only [Option.elim_some, htext, List.forall_mem_cons]
        exact ⟨hmark, by split <;> assumption, fun c hc => hdigit c (hdigits c hc)⟩

end Written

/-! ## The two forms -/

namespace Layout

variable (layout : Layout) {d : Decimal} {mark : Char} {x : Float}

/-- The digits after the point, or what stands for them if there are none. -/
def orPoint (point : Bool) (fraction : List Char) : List Char :=
  if fraction.isEmpty then (if point then ['0'] else []) else fraction

/-- A decimal in positional form. -/
def positionalForm (d : Decimal) : Written :=
  if d.exponent < 0 then ⟨['0'], List.replicate (d.exponent.natAbs - 1) '0' ++ d.digits, none⟩
  else
    let whole := d.exponent.natAbs + 1
    ⟨d.digits.take whole ++ List.replicate (whole - d.digits.length) '0',
      orPoint layout.pointIfIntegral (d.digits.drop whole), none⟩

/-- A decimal in scientific form. -/
def scientificForm (d : Decimal) : Written :=
  ⟨d.digits.take 1, orPoint layout.pointInScientific (d.digits.drop 1), some d.exponent⟩

/-- A finite double in the form that the layout gives it. -/
def form (x : Float) : Written :=
  if Double.magnitude x = 0 then layout.positionalForm ⟨['0'], 0⟩
  else
    let d := shortest x
    if layout.positionalFrom ≤ d.exponent ∧ d.exponent < layout.positionalBelow then
      layout.positionalForm d
    else layout.scientificForm d

/-- The point is written where there is something after it. -/
lemma toList_point (point : Bool) (fraction : List Char) :
    (if fraction.isEmpty then (if point then ".0" else "") else "." ++ String.ofList fraction).toList
      = if (orPoint point fraction).isEmpty then [] else '.' :: orPoint point fraction := by
  cases fraction <;> cases point <;> simp [orPoint]

lemma toList_positional (hne : d.digits ≠ []) (mark : Char) :
    (layout.positional d).toList = (layout.positionalForm d).text mark := by
  unfold positional positionalForm Written.text
  split
  · simp [hne]
  · simp only [String.toList_append, String.toList_ofList, toList_point, Option.elim_none,
      List.append_nil]

lemma toList_scientific (hmark : layout.mark = String.singleton mark) :
    (layout.scientific d).toList = (layout.scientificForm d).text mark := by
  simp only [scientific, scientificForm, Written.text, hmark, String.toList_append, String.toList_ofList,
    toList_point, String.toList_singleton, Option.elim_some, List.append_assoc, List.singleton_append]
  rfl

/-! ## What they stand for -/

/-- A zero after the point changes nothing. -/
lemma readBack_orPoint {whole fraction : List Char} (hwhole : Digits whole) (point : Bool) (e : Int) :
    readBack (natOfDigits 10 (whole ++ orPoint point fraction)) (e - (orPoint point fraction).length)
      = readBack (natOfDigits 10 (whole ++ fraction)) (e - fraction.length) := by
  cases fraction with
  | cons c fraction => rfl
  | nil =>
      cases point with
      | false => rfl
      | true =>
          have hzero := natOfDigits_append_zeros hwhole 1
          change readBack (natOfDigits 10 (whole ++ List.replicate 1 '0')) (e - 1) = _
          rw [hzero, readBack_mul_pow]
          simp

lemma bits_positionalForm (hd : Digits d.digits) : (layout.positionalForm d).bits = d.bitsOf := by
  unfold positionalForm Written.bits bitsOf
  split
  · next hneg =>
    have hzeros := natOfDigits_zeros_append (1 + (d.exponent.natAbs - 1)) hd
    rw [List.replicate_add, List.append_assoc] at hzeros
    change readBack (natOfDigits 10 (List.replicate 1 '0' ++ _)) _ = _
    rw [hzeros]
    congr 1
    simp only [Option.getD_none, List.length_append, List.length_replicate]
    omega
  · next hneg =>
    have hwhole : Digits (d.digits.take (d.exponent.natAbs + 1)
        ++ List.replicate (d.exponent.natAbs + 1 - d.digits.length) '0') :=
      hd.take.append (digits_replicate _)
    dsimp only
    rw [readBack_orPoint hwhole]
    rcases le_total d.digits.length (d.exponent.natAbs + 1) with hle | hle
    · rw [List.take_of_length_le hle, List.drop_of_length_le hle, List.append_nil,
        natOfDigits_append_zeros hd, readBack_mul_pow]
      congr 1
      simp only [Option.getD_none, List.length_nil]
      omega
    · rw [Nat.sub_eq_zero_of_le hle, List.replicate_zero, List.append_nil, List.take_append_drop]
      congr 1
      simp only [Option.getD_none, List.length_drop]
      omega

lemma bits_scientificForm (hd : Digits d.digits) (hne : d.digits ≠ []) :
    (layout.scientificForm d).bits = d.bitsOf := by
  have hpos : 1 ≤ d.digits.length := List.length_pos_iff.mpr hne
  unfold scientificForm Written.bits bitsOf
  dsimp only
  rw [readBack_orPoint hd.take, List.take_append_drop]
  congr 1
  simp only [Option.getD_some, List.length_drop]
  omega

lemma digits_orPoint {fraction : List Char} (h : Digits fraction) (point : Bool) :
    Digits (orPoint point fraction) := by
  unfold orPoint
  split
  · split
    · exact digits_replicate 1
    · simp [Digits]
  · exact h

lemma proper_positionalForm (hd : Digits d.digits) (hne : d.digits ≠ []) :
    (layout.positionalForm d).Proper := by
  unfold positionalForm
  split
  · exact ⟨digits_replicate 1, (digits_replicate _).append hd, by simp⟩
  · refine ⟨hd.take.append (digits_replicate _), digits_orPoint hd.drop _, ?_⟩
    simp [hne]

lemma proper_scientificForm (hd : Digits d.digits) (hne : d.digits ≠ []) :
    (layout.scientificForm d).Proper :=
  ⟨hd.take, digits_orPoint hd.drop _, by simp [scientificForm, hne]⟩

/-- The form of a finite double is its text and stands for it. -/
lemma form_spec (hmark : layout.mark = String.singleton mark)
    (hfinite : Double.magnitude x < Double.infinityBits) :
    (layout.form x).Proper ∧ (layout.form x).bits = Double.magnitude x
      ∧ (layout.magnitudeText x).toList = (layout.form x).text mark := by
  unfold form magnitudeText
  by_cases hzero : Double.magnitude x = 0
  · have hdigits : Digits ['0'] := digits_replicate 1
    have hne : (['0'] : List Char) ≠ [] := by simp
    simp only [if_pos hzero]
    refine ⟨layout.proper_positionalForm hdigits hne, ?_, layout.toList_positional hne mark⟩
    rw [layout.bits_positionalForm hdigits, hzero]
    exact readBack_zero _
  · obtain ⟨hbits, hdigits, hne⟩ := bitsOf_shortest hfinite hzero
    simp only [if_neg hzero]
    split
    · exact ⟨layout.proper_positionalForm hdigits hne, (layout.bits_positionalForm hdigits).trans hbits,
        layout.toList_positional hne mark⟩
    · exact ⟨layout.proper_scientificForm hdigits hne,
        (layout.bits_scientificForm hdigits hne).trans hbits, layout.toList_scientific hmark⟩

/-- The text of a finite double is its form, after a sign if it has one. -/
lemma toList_text (hmark : layout.mark = String.singleton mark)
    (hfinite : Double.magnitude x < Double.infinityBits) :
    (layout.text x).toList = (if Double.isNegative x then ['-'] else []) ++ (layout.form x).text mark := by
  have hnan : ¬x.isNaN = true := mt (Double.sort_iff x).2.2.mp hfinite.not_gt
  have hinf : ¬x.isInf = true := mt (Double.sort_iff x).2.1.mp hfinite.ne
  obtain ⟨-, -, htext⟩ := layout.form_spec hmark hfinite
  rw [Layout.text, if_neg hnan, if_neg hinf, String.toList_append, htext]
  split <;> rfl

end Layout

/-! ## Reading numbers -/

/-- The double nearest to a numeral with a sign. -/
def Double.ofNumeral (mark : Char) : List Char → Float
  | '-' :: rest => Double.ofMagnitude true (Written.ofText mark rest).bits
  | rest => Double.ofMagnitude false (Written.ofText mark rest).bits

/-- Without a sign a numeral begins with a digit. -/
lemma Double.ofNumeral_text_of_proper {mark : Char} {w : Written} (hw : w.Proper) :
    Double.ofNumeral mark (w.text mark)
      = Double.ofMagnitude false (Written.ofText mark (w.text mark)).bits := by
  obtain ⟨c, more, hwhole⟩ := List.exists_cons_of_ne_nil hw.nonempty
  have hdigit : c.isDigit = true := hw.whole c (by simp [hwhole])
  have htext : w.text mark = c :: (w.text mark).tail := by simp [Written.text, hwhole]
  rw [htext]
  unfold Double.ofNumeral
  split
  · next h =>
    rw [(List.cons.inj h).1] at hdigit
    exact absurd hdigit (by decide)
  · rfl

/-- **What a layout writes for a finite double reads back as that double.** -/
theorem Layout.ofNumeral_text {layout : Layout} {mark : Char} {x : Float}
    (hmark : layout.mark = String.singleton mark) (hdigit : mark.isDigit = false) (hpoint : mark ≠ '.')
    (hfinite : x.isFinite = true) : Double.ofNumeral mark (layout.text x).toList = x := by
  have hlt := (Double.sort_iff x).1.mp hfinite
  obtain ⟨hproper, hbits, -⟩ := layout.form_spec hmark hlt
  have hread := Written.ofText_text hdigit hpoint hproper
  have hx := Double.ofMagnitude_magnitude x
  rw [layout.toList_text hmark hlt]
  cases hsign : Double.isNegative x with
  | true =>
      change Double.ofMagnitude true (Written.ofText mark ((layout.form x).text mark)).bits = x
      rw [hread, hbits, ← hsign, hx]
  | false =>
      change Double.ofNumeral mark ((layout.form x).text mark) = x
      rw [Double.ofNumeral_text_of_proper hproper, hread, hbits, ← hsign, hx]

end KScript

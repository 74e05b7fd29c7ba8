import KScript.Dump.Json
import KScript.Proofs.Number.Written

/-!
# Scalars of JSON texts

What a JSON text says without brackets can be read off it: words and numbers (`says_text`), and the
characters of a string (`readString_flatMap`).  A number with a point or an exponent is a double, and any
other is an integer.
-/

namespace KScript.Json

open Decimal

/-! ## Words and numbers -/

/-- The characters of words and numbers. -/
def isScalarChar (c : Char) : Bool := c.isAlphanum || c == '.' || c == '-' || c == '+'

/-- The words, and what they stand for. -/
def words : List (String × Data) :=
  [("null", .null), ("true", .bool true), ("false", .bool false),
   ("Infinity", .float Double.infinity), ("-Infinity", .float Double.negativeInfinity),
   ("NaN", .float Double.nan)]

/-- The integer that a numeral with a sign stands for. -/
def readInteger : List Char → Int
  | '-' :: digits => -(natOfDigits 10 digits)
  | digits => natOfDigits 10 digits

/-- What a word or a number stands for. -/
def ofScalar (word : List Char) : Data :=
  (words.lookup (String.ofList word)).getD
    (if '.' ∈ word ∨ 'e' ∈ word then .float (Double.ofNumeral 'e' word)
      else .integer (readInteger word))

/-- Data that is neither a string nor in brackets. -/
def IsScalar : Data → Prop
  | .text _ | .list _ | .record _ => False
  | _ => True

/-- A text with a digit is no word. -/
lemma lookup_words_eq_none {word : List Char} (h : ∃ c ∈ word, c.isDigit = true) :
    words.lookup (String.ofList word) = none := by
  obtain ⟨c, hc, hdigit⟩ := h
  have hwords : ∀ entry ∈ words, ∀ c ∈ entry.1.toList, c.isDigit = false := by simp [words]
  refine List.lookup_eq_none_iff.mpr fun entry hentry => ?_
  rw [bne_iff_ne]
  intro heq
  have hnot := hwords entry hentry c (by rw [← heq, String.toList_ofList]; exact hc)
  rw [hdigit] at hnot
  cases hnot

lemma isScalarChar_of_isDigit {c : Char} (h : c.isDigit = true) : isScalarChar c = true := by
  simp [isScalarChar, Char.isAlphanum, h]

lemma toList_toString_int (n : Int) :
    (toString n).toList = if 0 ≤ n then digitsOf n.natAbs else '-' :: digitsOf n.natAbs := by
  change n.repr.toList = _
  rw [Int.repr_eq_if]
  split
  · next h =>
    rw [Nat.repr_eq_ofList_toDigits, String.toList_ofList, show n.toNat = n.natAbs by omega]
    rfl
  · next h =>
    rw [Nat.repr_eq_ofList_toDigits, show (-n).toNat = n.natAbs by omega]
    simp only [String.toList_append, String.toList_ofList]
    rfl

/-- Some digit stands in every numeral. -/
lemma exists_mem_digitsOf (n : Nat) : ∃ c ∈ digitsOf n, c.isDigit = true := by
  obtain ⟨c, more, h⟩ := List.exists_cons_of_ne_nil (Nat.toDigits_ne_nil (n := n) (b := 10))
  have hmem : c ∈ digitsOf n := by
    change c ∈ Nat.toDigits 10 n
    simp [h]
  exact ⟨c, hmem, digits_digitsOf n c hmem⟩

lemma readInteger_digitsOf (n : Nat) : readInteger (digitsOf n) = n := by
  unfold readInteger
  split
  · next digits h =>
    have hdigit := digits_digitsOf n '-' (by simp [h])
    exact absurd hdigit (by decide)
  · rw [natOfDigits_digitsOf]

lemma not_mem_digitsOf {c : Char} (h : c.isDigit = false) (n : Nat) : c ∉ digitsOf n := by
  intro hc
  rw [digits_digitsOf n c hc] at h
  cases h

lemma ofScalar_integer (n : Int) : ofScalar (toString n).toList = .integer n := by
  have hpoint := not_mem_digitsOf (c := '.') (by decide) n.natAbs
  have hmark := not_mem_digitsOf (c := 'e') (by decide) n.natAbs
  have hdigit := exists_mem_digitsOf n.natAbs
  rw [toList_toString_int]
  split
  · next h =>
    rw [ofScalar, lookup_words_eq_none hdigit, Option.getD_none, if_neg (by simp [hpoint, hmark]),
      readInteger_digitsOf, Int.natAbs_of_nonneg h]
  · next h =>
    have hdigit' : ∃ c ∈ '-' :: digitsOf n.natAbs, c.isDigit = true := by
      obtain ⟨c, hc, hc'⟩ := hdigit
      exact ⟨c, List.mem_cons_of_mem _ hc, hc'⟩
    have hvalue : readInteger ('-' :: digitsOf n.natAbs) = n := by
      rw [readInteger, natOfDigits_digitsOf]
      omega
    rw [ofScalar, lookup_words_eq_none hdigit', Option.getD_none, if_neg (by simp [hpoint, hmark]), hvalue]

lemma isScalarChar_of_mem_integer (n : Int) : ∀ c ∈ (toString n).toList, isScalarChar c = true := by
  have hdigits : ∀ c ∈ digitsOf n.natAbs, isScalarChar c = true :=
    fun c hc => isScalarChar_of_isDigit (digits_digitsOf _ c hc)
  rw [toList_toString_int]
  split
  · exact hdigits
  · exact List.forall_mem_cons.mpr ⟨by decide, hdigits⟩

/-! ## Doubles -/

section Doubles

variable {w : Written} {x : Float}

lemma mark_eq : numberLayout.mark = String.singleton 'e' := rfl

lemma isScalarChar_of_mem_text (hw : w.Proper) : ∀ c ∈ w.text 'e', isScalarChar c = true :=
  Written.forall_mem_text (fun _ => isScalarChar_of_isDigit) (by decide) (by decide) (by decide) (by decide) hw

/-- A double is never written like an integer. -/
lemma mem_form_text (hfinite : Double.magnitude x < Double.infinityBits) :
    '.' ∈ (numberLayout.form x).text 'e' ∨ 'e' ∈ (numberLayout.form x).text 'e' := by
  have hpoint : ∀ fraction, Layout.orPoint true fraction ≠ [] := by
    intro fraction
    cases fraction <;> simp [Layout.orPoint]
  have hpositional : ∀ {d : Decimal}, d.digits ≠ [] → '.' ∈ (numberLayout.positionalForm d).text 'e' := by
    intro d hd
    unfold Layout.positionalForm Written.text
    split
    · simp [hd]
    · simp [numberLayout, Layout.detailed, hpoint]
  unfold Layout.form
  split
  · exact .inl (hpositional (by simp))
  · next hzero =>
    have hne := (bitsOf_shortest hfinite hzero).2.2
    dsimp only
    split
    · exact .inl (hpositional hne)
    · exact .inr (by simp [Layout.scientificForm, Written.text])

lemma ofScalar_finite (hfinite : Double.magnitude x < Double.infinityBits) :
    ofScalar (numberLayout.text x).toList = .float x := by
  obtain ⟨hproper, -, -⟩ := numberLayout.form_spec mark_eq hfinite
  have hread : Double.ofNumeral 'e' (numberLayout.text x).toList = x :=
    Layout.ofNumeral_text mark_eq (by decide) (by decide) ((Double.sort_iff x).1.mpr hfinite)
  have hmark : '.' ∈ (numberLayout.text x).toList ∨ 'e' ∈ (numberLayout.text x).toList := by
    rw [numberLayout.toList_text mark_eq hfinite]
    exact (mem_form_text hfinite).imp (List.mem_append_right _) (List.mem_append_right _)
  have hdigit : ∃ c ∈ (numberLayout.text x).toList, c.isDigit = true := by
    obtain ⟨c, more, hwhole⟩ := List.exists_cons_of_ne_nil hproper.nonempty
    refine ⟨c, ?_, hproper.whole c (by simp [hwhole])⟩
    rw [numberLayout.toList_text mark_eq hfinite, Written.text]
    simp [hwhole]
  rw [ofScalar, lookup_words_eq_none hdigit, Option.getD_none, if_pos hmark, hread]

/-- What is not finite has a name. -/
lemma exists_word_of_not_finite (h : ¬Double.magnitude x < Double.infinityBits) :
    ∃ name, (name, Data.float x) ∈ words ∧ numberLayout.text x = name := by
  by_cases hnan : x.isNaN = true
  · obtain rfl := Double.eq_nan_of_isNaN hnan
    exact ⟨"NaN", by simp [words], by decide⟩
  · have hinf : Double.magnitude x = Double.infinityBits :=
      le_antisymm (not_lt.mp (mt (Double.sort_iff x).2.2.mpr hnan)) (not_lt.mp h)
    have hx := Double.ofMagnitude_magnitude x
    rw [hinf] at hx
    cases hsign : Double.isNegative x with
    | true =>
        obtain rfl : Double.negativeInfinity = x := by rw [← hx, hsign]; rfl
        exact ⟨"-Infinity", by simp [words], by decide⟩
    | false =>
        obtain rfl : Double.infinity = x := by rw [← hx, hsign]; rfl
        exact ⟨"Infinity", by simp [words], by decide⟩

end Doubles

/-! ## All scalars -/

/-- A text of scalar characters that stands for that data. -/
structure Says (word : List Char) (d : Data) : Prop where
  value : ofScalar word = d
  chars : ∀ c ∈ word, isScalarChar c = true
  nonempty : word ≠ []

lemma says_of_mem_words : ∀ entry ∈ words, Says entry.1.toList entry.2 := by
  intro entry hentry
  simp only [words, List.mem_cons, List.not_mem_nil, or_false] at hentry
  rcases hentry with rfl | rfl | rfl | rfl | rfl | rfl
  all_goals exact ⟨by simp [ofScalar, words, List.lookup], by simp [isScalarChar], by simp⟩

/-- **Scalars can be read off their texts.** -/
theorem says_text (indent : Nat) {d : Data} (h : IsScalar d) : Says (text indent d).toList d := by
  cases d with
  | null => exact says_of_mem_words ("null", .null) (by simp [words])
  | bool b =>
      cases b with
      | true => exact says_of_mem_words ("true", .bool true) (by simp [words])
      | false => exact says_of_mem_words ("false", .bool false) (by simp [words])
  | integer n =>
      refine ⟨ofScalar_integer n, isScalarChar_of_mem_integer n, ?_⟩
      obtain ⟨c, hc, -⟩ := exists_mem_digitsOf n.natAbs
      rw [text, toList_toString_int]
      split
      · exact List.ne_nil_of_mem hc
      · exact List.cons_ne_nil _ _
  | float x =>
      by_cases hfinite : Double.magnitude x < Double.infinityBits
      · refine ⟨ofScalar_finite hfinite, ?_, ?_⟩
        · obtain ⟨hproper, -, -⟩ := numberLayout.form_spec mark_eq hfinite
          rw [text, numberLayout.toList_text mark_eq hfinite, List.forall_mem_append]
          refine ⟨?_, isScalarChar_of_mem_text hproper⟩
          split <;> simp [isScalarChar]
        · rw [text, numberLayout.toList_text mark_eq hfinite]
          rcases mem_form_text hfinite with h | h
          all_goals exact List.append_ne_nil_of_right_ne_nil _ (List.ne_nil_of_mem h)
      · obtain ⟨name, hmem, htext⟩ := exists_word_of_not_finite hfinite
        rw [text, htext]
        exact says_of_mem_words (name, .float x) hmem
  | text | list | record => exact h.elim

/-! ## Strings -/

/-- What stands for the character after a backslash. -/
def unescape (c : Char) : Char :=
  if c = 'n' then '\n' else if c = 'r' then '\r' else if c = 't' then '\t'
  else if c = 'b' then '\x08' else if c = 'f' then '\x0c' else c

/-- The characters of a string up to its closing quote, and what follows. -/
def readString : List Char → Option (List Char × List Char)
  | [] => none
  | '"' :: rest => some ([], rest)
  | '\\' :: 'u' :: a :: b :: c :: d :: rest =>
    (readString rest).map fun (s, rest) => (Char.ofNat (natOfDigits 16 [a, b, c, d]) :: s, rest)
  | '\\' :: c :: rest => (readString rest).map fun (s, rest) => (unescape c :: s, rest)
  | c :: rest => (readString rest).map fun (s, rest) => (c :: s, rest)

/-- Control characters are written with four hexadecimal digits. -/
lemma hexadecimal_control : ∀ n < 32, (Text.hexadecimal 4 n).length = 4
    ∧ natOfDigits 16 (Text.hexadecimal 4 n) = n := by decide

/-- **The step.**  A character is read off the way it is written. -/
lemma readString_escape (c : Char) (rest : List Char) :
    readString (escape c ++ rest) = (readString rest).map fun (s, rest) => (c :: s, rest) := by
  unfold escape
  split_ifs with hquote hbackslash _ _ _ _ _ hcontrol
  case pos => subst c; rfl
  case pos => subst c; rfl
  case pos => subst c; rfl
  case pos => subst c; rfl
  case pos => subst c; rfl
  case pos => subst c; rfl
  case pos => subst c; rfl
  case pos =>
    obtain ⟨hlength, hvalue⟩ := hexadecimal_control c.toNat hcontrol
    obtain ⟨a, b, d, e, hdigits⟩ : ∃ a b d e, Text.hexadecimal 4 c.toNat = [a, b, d, e] := by
      match Text.hexadecimal 4 c.toNat, hlength with
      | [a, b, d, e], _ => exact ⟨a, b, d, e, rfl⟩
    rw [hdigits] at hvalue ⊢
    simp only [List.cons_append, List.nil_append, readString, hvalue, Char.ofNat_toNat]
  case neg =>
    rw [List.singleton_append, readString]
    · exact hquote
    · rintro a b d e more rfl
      exact absurd rfl hbackslash
    · rintro d more rfl
      exact absurd rfl hbackslash

/-- **Strings can be read off their texts.** -/
theorem readString_flatMap (s rest : List Char) :
    readString (s.flatMap escape ++ '"' :: rest) = some (s, rest) := by
  induction s with
  | nil => rfl
  | cons c s ih => rw [List.flatMap_cons, List.append_assoc, readString_escape, ih, Option.map_some]

end KScript.Json

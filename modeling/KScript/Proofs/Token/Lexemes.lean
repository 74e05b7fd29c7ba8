import KScript.Token.Scan
import Mathlib.Data.List.TakeWhile
import Mathlib.Tactic.Common

/-!
# Lexemes

The texts that are words of the language, each with its kind and its value.  The relation is written down
without a scanner: a lexeme is a mark from a fixed list, a word made of letters and digits, a text in
quotes or a numeral.  What a lexeme can be is told by its first character, and no text is a lexeme in two
ways.
-/

namespace KScript

open Scan

/-! ## The relation -/

/-- The marks: lexemes made of punctuation. -/
def Kind.marks : List (List Char × Kind) :=
  [(['('], .leftParen), ([')'], .rightParen), (['{'], .leftBrace), (['}'], .rightBrace),
   (['['], .leftSquare), ([']'], .rightSquare), ([','], .comma), (['.'], .dot), ([';'], .semicolon),
   (['?'], .question), ([':'], .colon), (['-'], .minus), (['-', '='], .minusEqual), (['+'], .plus),
   (['+', '='], .plusEqual), (['/'], .slash), (['/', '='], .slashEqual), (['*'], .star),
   (['*', '='], .starEqual), (['^'], .caret), (['^', '='], .caretEqual), (['!'], .bang),
   (['!', '='], .bangEqual), (['='], .equal), (['=', '='], .equalEqual), (['>'], .greater),
   (['>', '='], .greaterEqual), (['<'], .lesser), (['<', '='], .lesserEqual), (['<', '-'], .lesserMinus)]

/-- The characters that open and close a text. -/
def quotes : List Char := ['"', '\'']

/-- The marks after which a numeral is written in another base, with that base and its digits. -/
def bases : List (Char × Nat × (Char → Bool)) := [('b', 2, isBinaryDigit), ('x', 16, isHexDigit)]

/-- The text is a numeral for that number. -/
inductive Numeral : List Char → Float → Prop where
  | decimal {digits : List Char} (hne : digits ≠ []) (hdigits : ∀ d ∈ digits, d.isDigit = true) :
      Numeral digits (Double.ofRatio false (Decimal.natOfDigits 10 digits) (Decimal.tenTo 0))
  | fraction {digits decimals : List Char} (hne : digits ≠ [])
      (hdigits : ∀ d ∈ digits, d.isDigit = true) (hne' : decimals ≠ [])
      (hdecimals : ∀ d ∈ decimals, d.isDigit = true) :
      Numeral (digits ++ '.' :: decimals) (Double.ofRatio false
        (Decimal.natOfDigits 10 (digits ++ decimals)) (Decimal.tenTo decimals.length))
  | based {mark : Char} {base : Nat} {isBaseDigit : Char → Bool} {digits : List Char}
      (hbase : (mark, base, isBaseDigit) ∈ bases) (hne : digits ≠ [])
      (hdigits : ∀ d ∈ digits, isBaseDigit d = true) :
      Numeral ('0' :: mark :: digits) (Double.ofNat (Decimal.natOfDigits base digits))

/-- The text is a lexeme of that kind, and that is its value, if it has one. -/
inductive Lexeme : List Char → Kind → Option Literal → Prop where
  | mark {text : List Char} {kind : Kind} (h : (text, kind) ∈ Kind.marks) : Lexeme text kind none
  | word {c : Char} {rest : List Char} (hc : isLetter c = true)
      (hrest : ∀ d ∈ rest, isWordChar d = true) :
      Lexeme (c :: rest) (Kind.ofWord (String.ofList (c :: rest))) none
  | string {quote : Char} {body : List Char} (hquote : quote ∈ quotes) (hbody : quote ∉ body) :
      Lexeme (quote :: (body ++ [quote])) .string (some (.string (String.ofList body)))
  | number {text : List Char} {x : Float} (h : Numeral text x) :
      Lexeme text .number (some (.number x))

/-! ## Classes of characters -/

lemma isLetter_of_isDigit {c : Char} (h : c.isDigit = true) : isLetter c = false := by
  have hrange : 48 ≤ c.toNat ∧ c.toNat ≤ 57 := by
    simpa [Char.isDigit, UInt32.le_iff_toNat_le] using h
  have hne : c ≠ '_' := by
    rintro rfl
    exact absurd hrange.2 (by decide)
  have hupper : c.isUpper = false := decide_eq_false fun hc => by
    have hleast : 65 ≤ c.toNat := UInt32.le_iff_toNat_le.mp hc.1
    omega
  have hlower : c.isLower = false := Bool.eq_false_iff.mpr fun hc => by
    have hleast : 97 ≤ c.toNat :=
      UInt32.le_iff_toNat_le.mp (of_decide_eq_true (Bool.and_eq_true_iff.mp hc).1)
    omega
  have halpha : c.isAlpha = false := Bool.or_eq_false_iff.mpr ⟨hupper, hlower⟩
  rw [isLetter, halpha, Bool.false_or]
  exact beq_eq_false_iff_ne.mpr hne

lemma class_of_mem_quotes : ∀ q ∈ quotes, isLetter q = false ∧ q.isDigit = false := by
  simp [quotes, isLetter]

/-- No mark begins like a lexeme of another sort. -/
lemma class_of_mem_marks : ∀ entry ∈ Kind.marks, ∀ c ∈ entry.1.head?,
    isLetter c = false ∧ c.isDigit = false ∧ c ∉ quotes := by
  simp [Kind.marks, quotes, isLetter]

lemma nil_notMem_marks : ∀ entry ∈ Kind.marks, entry.1 ≠ [] := by decide

/-- The mark of a base is no digit, and it tells the base. -/
lemma not_isDigit_of_mem_bases {entry : Char × Nat × (Char → Bool)} (h : entry ∈ bases) :
    entry.1.isDigit = false ∧ entry.1 ≠ '.' := by
  simp only [bases, List.mem_cons, List.not_mem_nil, or_false] at h
  rcases h with rfl | rfl <;> decide

lemma eq_of_mem_bases {mark : Char} {entry entry' : Nat × (Char → Bool)} (h : (mark, entry) ∈ bases)
    (h' : (mark, entry') ∈ bases) : entry' = entry := by
  simp only [bases, List.mem_cons, List.not_mem_nil, or_false, Prod.mk.injEq] at h h'
  rcases h with ⟨rfl, rfl⟩ | ⟨rfl, rfl⟩ <;> simpa using h'

/-! ## Numerals -/

namespace Numeral

variable {text : List Char} {x y : Float}

lemma isDigit_head {c : Char} {more : List Char} (h : Numeral (c :: more) x) : c.isDigit = true := by
  generalize htext : c :: more = text at h
  cases h with
  | decimal hne hdigits => exact hdigits c (by simp [← htext])
  | @fraction digits decimals hne hdigits =>
      cases digits with
      | nil => exact absurd rfl hne
      | cons d digits =>
          rw [List.cons_append, List.cons.injEq] at htext
          exact htext.1 ▸ hdigits d List.mem_cons_self
  | based =>
      rw [List.cons.injEq] at htext
      exact htext.1 ▸ rfl

lemma ne_nil (h : Numeral text x) : text ≠ [] := by
  cases h with
  | decimal hne => exact hne
  | fraction => simp
  | based => simp

/-- After the mark of a base there are only digits of that base. -/
lemma of_base {mark : Char} {base : Nat} {isBaseDigit : Char → Bool} {digits : List Char}
    (hbase : (mark, base, isBaseDigit) ∈ bases) (h : Numeral ('0' :: mark :: digits) x) :
    digits ≠ [] ∧ (∀ d ∈ digits, isBaseDigit d = true)
      ∧ x = Double.ofNat (Decimal.natOfDigits base digits) := by
  obtain ⟨hmark, hdot⟩ := not_isDigit_of_mem_bases hbase
  generalize htext : '0' :: mark :: digits = text at h
  cases h with
  | decimal hne hdigits => simp [hdigits mark (by simp [← htext])] at hmark
  | @fraction whole decimals hne hwhole =>
      match whole, hne with
      | [_], _ => simp_all
      | _ :: d :: _, _ =>
          simp only [List.cons_append, List.cons.injEq] at htext
          have hd := hwhole d (by simp)
          rw [← htext.2.1] at hd
          simp [hd] at hmark
  | @based mark' base' isBaseDigit' digits' hbase' hne hdigits =>
      simp only [List.cons.injEq, true_and] at htext
      obtain ⟨rfl, rfl⟩ := htext
      cases eq_of_mem_bases hbase hbase'
      exact ⟨hne, hdigits, rfl⟩

/-- A numeral in tens is its first run of digits, alone or with a point and more digits after it. -/
lemma of_decimal {whole rest : List Char} (hne : whole ≠ []) (hwhole : ∀ d ∈ whole, d.isDigit = true)
    (hrest : ∀ d ∈ rest.head?, d.isDigit = false ∧ ∀ entry ∈ bases, whole = ['0'] → d ≠ entry.1)
    (h : Numeral (whole ++ rest) x) :
    rest = [] ∧ x = Double.ofRatio false (Decimal.natOfDigits 10 whole) (Decimal.tenTo 0)
      ∨ ∃ decimals, rest = '.' :: decimals ∧ decimals ≠ [] ∧ (∀ d ∈ decimals, d.isDigit = true)
        ∧ x = Double.ofRatio false (Decimal.natOfDigits 10 (whole ++ decimals))
            (Decimal.tenTo decimals.length) := by
  generalize htext : whole ++ rest = text at h
  cases h with
  | decimal _ hdigits =>
      have hnil : rest = [] := by
        cases rest with
        | nil => rfl
        | cons d rest =>
            have hd := hdigits d (by simp [← htext])
            simp [hd] at hrest
      subst hnil
      rw [List.append_nil] at htext
      exact Or.inl ⟨rfl, by rw [htext]⟩
  | @fraction digits decimals _ hdigits hne' hdecimals =>
      have hspan : ∀ {l r : List Char}, (∀ d ∈ l, d.isDigit = true) →
          (∀ d ∈ r.head?, d.isDigit = false) → (l ++ r).takeWhile Char.isDigit = l := by
        intro l r hl hr
        rw [List.takeWhile_append_of_pos hl]
        cases r with
        | nil => simp
        | cons d r => simp [hr d rfl]
      have hwhole' := hspan hwhole fun d hd => (hrest d hd).1
      rw [htext, hspan hdigits (by simp)] at hwhole'
      subst hwhole'
      rw [List.append_cancel_left_eq] at htext
      exact Or.inr ⟨decimals, htext, hne', hdecimals, rfl⟩
  | @based mark base isBaseDigit digits hbase =>
      obtain ⟨hmark, -⟩ := not_isDigit_of_mem_bases hbase
      match whole, hne with
      | [d], _ =>
          simp only [List.cons_append, List.nil_append, List.cons.injEq] at htext
          obtain ⟨rfl, rfl⟩ := htext
          exact absurd rfl ((hrest mark rfl).2 _ hbase rfl)
      | _ :: d :: _, _ =>
          simp only [List.cons_append, List.cons.injEq] at htext
          have hd := hwhole d (by simp)
          rw [htext.2.1] at hd
          simp [hd] at hmark

/-- A numeral stands for one number. -/
lemma unique (h : Numeral text x) (h' : Numeral text y) : y = x := by
  cases h with
  | decimal hne hdigits =>
      rw [← List.append_nil text] at h'
      rcases of_decimal hne hdigits (by simp) h' with ⟨-, hx⟩ | ⟨_, hnil, -⟩
      · exact hx
      · cases hnil
  | fraction hne hdigits hne' hdecimals =>
      have hdot : ∀ entry ∈ bases, ¬ '.' = entry.1 := fun entry hentry heq =>
        (not_isDigit_of_mem_bases hentry).2 heq.symm
      rcases of_decimal hne hdigits (by simpa using fun a b c h _ => hdot (a, b, c) h) h' with
        ⟨hnil, -⟩ | ⟨_, heq, -, -, hx⟩
      · cases hnil
      · cases heq
        exact hx
  | based hbase => exact (of_base hbase h').2.2

end Numeral

/-! ## What the first character tells -/

namespace Lexeme

variable {text more : List Char} {c : Char} {kind kind' : Kind} {literal literal' : Option Literal}

lemma ne_nil (h : Lexeme text kind literal) : text ≠ [] := by
  cases h with
  | mark h => exact nil_notMem_marks _ h
  | number h => exact h.ne_nil
  | _ => simp

/-- A lexeme that begins with a letter is a word. -/
lemma of_letter (hc : isLetter c = true) (h : Lexeme (c :: more) kind literal) :
    (∀ d ∈ more, isWordChar d = true) ∧ kind = Kind.ofWord (String.ofList (c :: more))
      ∧ literal = none := by
  cases h with
  | mark h => simp [(class_of_mem_marks _ h c rfl).1] at hc
  | word _ hrest => exact ⟨hrest, rfl, rfl⟩
  | string hquote => simp [(class_of_mem_quotes c hquote).1] at hc
  | number h => simp [isLetter_of_isDigit h.isDigit_head] at hc

/-- A lexeme that begins with a quote ends with the next quote of that sort. -/
lemma of_quote (hc : c ∈ quotes) (h : Lexeme (c :: more) kind literal) :
    ∃ body, more = body ++ [c] ∧ c ∉ body ∧ kind = .string
      ∧ literal = some (.string (String.ofList body)) := by
  cases h with
  | mark h => exact absurd hc (class_of_mem_marks _ h c rfl).2.2
  | word hletter => simp [(class_of_mem_quotes c hc).1] at hletter
  | string _ hbody => exact ⟨_, rfl, hbody, rfl, rfl⟩
  | number h => exact absurd h.isDigit_head (by simp [(class_of_mem_quotes c hc).2])

/-- A lexeme that begins with a digit is a numeral. -/
lemma of_digit (hc : c.isDigit = true) (h : Lexeme (c :: more) kind literal) :
    ∃ x, Numeral (c :: more) x ∧ kind = .number ∧ literal = some (.number x) := by
  cases h with
  | mark h => simp [(class_of_mem_marks _ h c rfl).2.1] at hc
  | word hletter => simp [isLetter_of_isDigit hc] at hletter
  | string hquote => simp [(class_of_mem_quotes c hquote).2] at hc
  | number h => exact ⟨_, h, rfl, rfl⟩

/-- All other lexemes are marks. -/
lemma of_mark (hletter : isLetter c = false) (hdigit : c.isDigit = false) (hquote : c ∉ quotes)
    (h : Lexeme (c :: more) kind literal) : (c :: more, kind) ∈ Kind.marks ∧ literal = none := by
  cases h with
  | mark h => exact ⟨h, rfl⟩
  | word hc => simp [hc] at hletter
  | string hq => exact absurd hq hquote
  | number h => simp [h.isDigit_head] at hdigit

/-- **A lexeme has one kind and one value.** -/
theorem unique (h : Lexeme text kind literal) (h' : Lexeme text kind' literal') :
    kind' = kind ∧ literal' = literal := by
  cases h with
  | mark h =>
      cases text with
      | nil => exact absurd rfl (nil_notMem_marks _ h)
      | cons c more =>
          obtain ⟨hletter, hdigit, hquote⟩ := class_of_mem_marks _ h c rfl
          obtain ⟨hmark, rfl⟩ := of_mark hletter hdigit hquote h'
          have hone : ∀ a ∈ Kind.marks, ∀ b ∈ Kind.marks, a.1 = b.1 → a.2 = b.2 := by decide
          exact ⟨hone _ hmark _ h rfl, rfl⟩
  | word hc =>
      obtain ⟨-, rfl, rfl⟩ := of_letter hc h'
      exact ⟨rfl, rfl⟩
  | string hquote hbody =>
      obtain ⟨body, heq, -, rfl, rfl⟩ := of_quote hquote h'
      simp only [List.append_cancel_right_eq] at heq
      rw [heq]
      exact ⟨rfl, rfl⟩
  | number h =>
      cases text with
      | nil => exact absurd rfl h.ne_nil
      | cons c more =>
          obtain ⟨x, hx, rfl, rfl⟩ := of_digit h.isDigit_head h'
          rw [h.unique hx]
          exact ⟨rfl, rfl⟩

end Lexeme

end KScript

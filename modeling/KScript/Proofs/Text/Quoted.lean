import KScript.Number.Decimal
import KScript.Text.Quoted
import Mathlib.Tactic.Common

/-!
# Reading quoted texts

Each character of a quoted text is written so that it can be read off again, whatever follows it
(`Text.readChar_escape`), and the closing quote is never mistaken for a character of the text.  So a quoted
text tells where it ends and what it stands for (`Text.quoted_append_inj`).
-/

namespace KScript.Text

open Decimal

/-! ## Numbers in a base -/

lemma natOfDigits_append_singleton (base : Nat) (digits : List Char) (c : Char) :
    natOfDigits base (digits ++ [c]) = natOfDigits base digits * base + digitValue c := by
  simp [natOfDigits]

lemma digitValue_digitChar : ∀ n < 16, digitValue n.digitChar = n := by decide

lemma natOfDigits_toDigits {base : Nat} (hbase : 1 < base) (hle : base ≤ 16) (n : Nat) :
    natOfDigits base (Nat.toDigits base n) = n := by
  induction n using Nat.strongRecOn with
  | ind n ih =>
      by_cases hn : n < base
      · rw [Nat.toDigits_of_lt_base hn, ← List.nil_append [_], natOfDigits_append_singleton,
          digitValue_digitChar n (by omega)]
        simp [natOfDigits]
      · have hge : base ≤ n := Nat.le_of_not_lt hn
        have hrest := ih (n / base) (Nat.div_lt_self (by omega) hbase)
        have hdigit : n % base < 16 := Nat.lt_of_lt_of_le (Nat.mod_lt n (Nat.zero_lt_of_lt hbase)) hle
        rw [Nat.toDigits_of_base_le hbase hge, natOfDigits_append_singleton, hrest,
          digitValue_digitChar _ hdigit, Nat.mul_comm, Nat.div_add_mod]

/-- Zeros in front do not count. -/
lemma natOfDigits_zeros_append (base zeros : Nat) (digits : List Char) :
    natOfDigits base (List.replicate zeros '0' ++ digits) = natOfDigits base digits := by
  induction zeros with
  | zero => rfl
  | succ zeros ih =>
      have hzero : 0 * base + digitValue '0' = 0 := Nat.zero_mul base
      rw [List.replicate_succ, List.cons_append, ← ih, natOfDigits, List.foldl_cons, hzero]
      rfl

lemma natOfDigits_hexadecimal (width n : Nat) : natOfDigits 16 (hexadecimal width n) = n := by
  rw [hexadecimal, natOfDigits_zeros_append, natOfDigits_toDigits (by decide) (Nat.le_refl _)]

lemma length_hexadecimal {width n : Nat} (hn : (Nat.toDigits 16 n).length ≤ width) :
    (hexadecimal width n).length = width := by
  simp only [hexadecimal, List.length_append, List.length_replicate]
  omega

/-! ## Characters -/

/-- A character by its number, which takes up that many places. -/
def readHexadecimal (width : Nat) (text : List Char) : Char × List Char :=
  (Char.ofNat (natOfDigits 16 (text.take width)), text.drop width)

/-- The next character of a quoted text, and what follows it. -/
def readChar : List Char → Option (Char × List Char)
  | [] => none
  | '\\' :: 'n' :: rest => some ('\n', rest)
  | '\\' :: 'r' :: rest => some ('\r', rest)
  | '\\' :: 't' :: rest => some ('\t', rest)
  | '\\' :: 'x' :: rest => some (readHexadecimal 2 rest)
  | '\\' :: 'u' :: rest => some (readHexadecimal 4 rest)
  | '\\' :: 'U' :: rest => some (readHexadecimal 8 rest)
  | '\\' :: c :: rest => some (c, rest)
  | c :: rest => some (c, rest)

lemma readHexadecimal_append {width : Nat} {c : Char} (hc : (Nat.toDigits 16 c.toNat).length ≤ width)
    (rest : List Char) : readHexadecimal width (hexadecimal width c.toNat ++ rest) = (c, rest) := by
  have hlength := length_hexadecimal hc
  rw [readHexadecimal, List.take_left' hlength, List.drop_left' hlength, natOfDigits_hexadecimal,
    Char.ofNat_toNat]

variable {quote c : Char}

/-- A quote or a backslash stands for itself after a backslash. -/
lemma readChar_backslash (h : c = '\'' ∨ c = '"' ∨ c = '\\') (rest : List Char) :
    readChar ('\\' :: c :: rest) = some (c, rest) := by
  rcases h with rfl | rfl | rfl <;> rfl

lemma readChar_plain (h : c ≠ '\\') (rest : List Char) : readChar (c :: rest) = some (c, rest) := by
  unfold readChar
  split <;> simp_all

/-- **A character is read off the way it is written.** -/
lemma readChar_escape (hquote : quote = '\'' ∨ quote = '"') (c : Char) (rest : List Char) :
    readChar (escape quote c ++ rest) = some (c, rest) := by
  have hlength {width : Nat} (hwidth : 0 < width) :=
    (Nat.length_toDigits_le_iff (n := c.toNat) (b := 16) (by decide) hwidth).mpr
  unfold escape
  split_ifs with hmark hn hr ht hprintable hbyte hplane
  · exact readChar_backslash (by grind) rest
  · subst hn
    rfl
  · subst hr
    rfl
  · subst ht
    rfl
  · exact readChar_plain (fun heq => hmark (.inr heq)) rest
  · exact congrArg some (readHexadecimal_append (hlength (by decide) (by simpa using hbyte)) rest)
  · exact congrArg some (readHexadecimal_append (hlength (by decide) (by simpa using hplane)) rest)
  · exact congrArg some (readHexadecimal_append (hlength (by decide) c.val.toNat_lt) rest)

/-- No character is written with the quote in front. -/
lemma escape_eq_cons (hquote : quote = '\'' ∨ quote = '"') (c : Char) :
    ∃ first more, escape quote c = first :: more ∧ first ≠ quote := by
  have hbackslash : '\\' ≠ quote := by rcases hquote with rfl | rfl <;> decide
  unfold escape
  split_ifs with hmark
  iterate 4 · exact ⟨_, _, rfl, hbackslash⟩
  · exact ⟨c, [], rfl, fun heq => hmark (.inl heq)⟩
  iterate 3 · exact ⟨_, _, rfl, hbackslash⟩

/-! ## Texts -/

lemma quoteFor_cases (text : List Char) : quoteFor text = '\'' ∨ quoteFor text = '"' := by
  unfold quoteFor
  split
  · exact .inr rfl
  · exact .inl rfl

/-- The characters up to a closing quote tell the text. -/
lemma flatMap_escape_inj (hquote : quote = '\'' ∨ quote = '"') {s t rest rest' : List Char}
    (h : s.flatMap (escape quote) ++ quote :: rest = t.flatMap (escape quote) ++ quote :: rest') :
    s = t ∧ rest = rest' := by
  induction s generalizing t with
  | nil =>
      cases t with
      | nil => exact ⟨rfl, (List.cons.inj h).2⟩
      | cons d t =>
          obtain ⟨first, more, heq, hne⟩ := escape_eq_cons hquote d
          rw [List.flatMap_cons, heq] at h
          exact absurd (List.cons.inj h).1.symm hne
  | cons c s ih =>
      cases t with
      | nil =>
          obtain ⟨first, more, heq, hne⟩ := escape_eq_cons hquote c
          rw [List.flatMap_cons, heq] at h
          exact absurd (List.cons.inj h).1 hne
      | cons d t =>
          have hread := congrArg readChar h
          simp only [List.flatMap_cons, List.append_assoc, readChar_escape hquote, Option.some.injEq,
            Prod.mk.injEq] at hread
          obtain ⟨rfl, hrest⟩ := ih hread.2
          exact ⟨by rw [hread.1], hrest⟩

lemma toList_quoted (text : String) :
    (quoted text).toList
      = quoteFor text.toList :: (text.toList.flatMap (escape (quoteFor text.toList))
        ++ [quoteFor text.toList]) := by
  simp [quoted]

/-- **A quoted text tells where it ends and what it stands for.** -/
theorem quoted_append_inj {s t : String} {rest rest' : List Char}
    (h : (quoted s).toList ++ rest = (quoted t).toList ++ rest') : s = t ∧ rest = rest' := by
  simp only [toList_quoted, List.cons_append, List.append_assoc, List.cons.injEq] at h
  obtain ⟨hquote, hrest⟩ := h
  rw [← hquote] at hrest
  obtain ⟨htext, hrest⟩ := flatMap_escape_inj (quoteFor_cases _) hrest
  exact ⟨String.toList_inj.mp htext, hrest⟩

end KScript.Text

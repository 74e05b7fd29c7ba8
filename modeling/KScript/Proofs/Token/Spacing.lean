import KScript.Proofs.Token.Lexed
import KScript.Proofs.Token.Seam

/-!
# What stands between lexemes does not matter

The lexemes of a scan can be written down again with other blanks and comments between them (`Spaced`).
Scanned again, the text gives the same tokens on other lines, and nothing in it is at fault, even if there
were faults in the text that the lexemes came from: a blank ends every lexeme.
-/

namespace KScript

open Scan

/-! ## Spacings -/

/-- Blanks and comments, each comment with the end of its line. -/
inductive Filler : List Char → Prop where
  | nil : Filler []
  | blank {c : Char} {rest : List Char} (hc : c ∈ blanks) (h : Filler rest) : Filler (c :: rest)
  | comment {body rest : List Char} (hbody : '\n' ∉ body) (h : Filler rest) :
      Filler ('/' :: '/' :: (body ++ '\n' :: rest))

/-- A blank, and then blanks and comments. -/
inductive Spacing : List Char → Prop where
  | mk {c : Char} {rest : List Char} (hc : c ∈ blanks) (h : Filler rest) : Spacing (c :: rest)

/-- The text holds the lexemes of the tokens in order, with spacings between them, before the first and after
the last. -/
inductive Spaced : List Token → List Char → Prop where
  | last {gap : List Char} (hgap : Spacing gap) : Spaced [] gap
  | lexeme {gap rest : List Char} {t : Token} {tokens : List Token} (hgap : Spacing gap)
      (h : Spaced tokens rest) : Spaced (t :: tokens) (gap ++ (t.lexeme.toList ++ rest))

/-- What a token is, wherever it stands. -/
def Token.content (t : Token) : Kind × String × Option Literal := (t.kind, t.lexeme, t.literal)

/-! ## Scanning spacings -/

variable {before gap rest : List Char} {tokens : List Token} {faults : List Diagnostic}

/-- Nothing is found between lexemes. -/
lemma Filler.tiled (h : Filler gap) : ∀ {before : List Char},
    Tiled (before ++ gap) rest tokens faults → Tiled before (gap ++ rest) tokens faults := by
  induction h with
  | nil =>
      intro before hrest
      rwa [List.append_nil] at hrest
  | @blank c filler hc _ ih =>
      intro before hrest
      rw [List.append_cons] at hrest
      have hblank : Next .blank [c] (filler ++ rest) := .blank hc
      have hwhole := Tiled.gap (.inl rfl) hblank (ih hrest)
      exact hwhole
  | @comment body filler hbody _ ih =>
      intro before hrest
      have hsplit : before ++ '/' :: '/' :: (body ++ '\n' :: filler)
          = before ++ ('/' :: '/' :: body) ++ ['\n'] ++ filler := by simp
      have hcomment : Next .comment ('/' :: '/' :: body) ('\n' :: (filler ++ rest)) :=
        .comment hbody (by simp)
      rw [hsplit] at hrest
      have hbreak := Tiled.gap (.inl rfl) (.blank (by decide)) (ih hrest)
      have hwhole := Tiled.gap (.inr rfl) hcomment hbreak
      simpa using hwhole

lemma Spacing.tiled (h : Spacing gap) (hrest : Tiled (before ++ gap) rest tokens faults) :
    Tiled before (gap ++ rest) tokens faults := by
  obtain ⟨hc, hfiller⟩ := h
  exact (Filler.blank hc hfiller).tiled hrest

/-- A spaced text begins with a blank. -/
lemma Spaced.head {text : List Char} (h : Spaced tokens text) : ∃ c ∈ blanks, ∃ rest, text = c :: rest := by
  cases h with
  | last hgap | lexeme hgap =>
      obtain ⟨hc, -⟩ := hgap
      exact ⟨_, hc, _, rfl⟩

/-! ## Scanning again -/

/-- **The lexemes of tokens are found again** in a text that spaces them, and nothing is at fault there. -/
lemma Spaced.tiled {text : List Char} (h : Spaced tokens text) : ∀ before : List Char,
    (∀ t ∈ tokens, t.Lexed) →
    ∃ again, Tiled before text again [] ∧ again.map Token.content = tokens.map Token.content := by
  induction h with
  | @last gap hgap =>
      intro before _
      have htiled : Tiled before (gap ++ []) [] [] := hgap.tiled .done
      rw [List.append_nil] at htiled
      exact ⟨[], htiled, rfl⟩
  | @lexeme gap rest t tokens hgap hspaced ih =>
      intro before hlexed
      obtain ⟨ht, hrest⟩ := List.forall_mem_cons.mp hlexed
      obtain ⟨c, hc, more, rfl⟩ := hspaced.head
      obtain ⟨again, htiled, hagain⟩ := ih (before ++ gap ++ t.lexeme.toList) hrest
      have hnext : Next (.token t.kind t.literal) t.lexeme.toList ([] ++ c :: more) :=
        (next_of_lexeme ht).token_seam hc
      refine ⟨_, hgap.tiled (.token hnext htiled), ?_⟩
      rw [List.map_cons, List.map_cons, hagain, Token.content, String.ofList_toList]
      rfl

/-- **What stands between lexemes does not matter.**  Whatever the source, be it at fault or not: take the
lexemes of its tokens and write them down again, with a spacing between any two of them, before the first and
after the last.  A spacing is a blank, and then blanks and comments that end with their lines.  The scan of
the new text has nothing to complain about, and its tokens are those of the source, with the same kinds,
lexemes and values. -/
theorem Scan.spacing_unseen (source text : String)
    (h : Spaced (Scan.ofSource source).tokens text.toList) :
    (Scan.ofSource text).faults = []
      ∧ (Scan.ofSource text).tokens.map Token.content = (Scan.ofSource source).tokens.map Token.content := by
  obtain ⟨again, htiled, hcontent⟩ := h.tiled [] (Scan.lexed_ofSource source)
  obtain ⟨htokens, hfaults⟩ := htiled.eq_cut
  refine ⟨hfaults.symm, ?_⟩
  rw [← hcontent, htokens]
  rfl

/-- A binary numeral without a binary digit, a text over two lines that looks like a comment, and a point
behind a numeral. -/
def faultyText : String := "0b2 'a\n//\"' 7.x"

/-- Its lexemes, with comments and breaks between them. -/
def spacedText : String := "\t2 \n'a\n//\"' // '\n//\n7\r. x\n"

theorem Scan.spacing_unseen_spacedText :
    (Scan.ofSource faultyText).faults ≠ []
      ∧ (Scan.ofSource spacedText).faults = []
      ∧ (Scan.ofSource spacedText).tokens.map Token.content
          = (Scan.ofSource faultyText).tokens.map Token.content := by
  have hspaced : Spaced (Scan.ofSource faultyText).tokens spacedText.toList := by
    have hempty : Filler "//\n".toList := @Filler.comment [] [] (by decide) .nil
    have hfiller : Filler "// '\n//\n".toList := @Filler.comment " '".toList _ (by decide) hempty
    have hcomments : Spacing " // '\n//\n".toList := .mk (by decide) hfiller
    have hbreak : Spacing [' ', '\n'] := .mk (by decide) (.blank (by decide) .nil)
    have hblank (c : Char) (hc : c ∈ blanks) : Spacing [c] := .mk hc .nil
    refine .lexeme (hblank '\t' (by decide)) (.lexeme hbreak (.lexeme hcomments ?_))
    refine .lexeme (hblank '\r' (by decide)) (.lexeme (hblank ' ' (by decide)) ?_)
    exact .last (hblank '\n' (by decide))
  exact ⟨by decide +kernel, Scan.spacing_unseen faultyText spacedText hspaced⟩

end KScript

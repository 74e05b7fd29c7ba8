import KScript.Proofs.Grammar.Expression
import KScript.Proofs.Lines.Relined
import KScript.Proofs.Number.Rounding
import KScript.Proofs.Token.Tiling
import KScript.Proofs.Token.Words

/-!
# Tokens that are lexemes

A token is *lexed* if its text is a lexeme of its kind with its value.  Every token of a scan is, and so is
the operator that a compound assignment computes with.  The text of such a token tells the rest of it, apart
from its line: scanned alone, it gives that token (`Token.Lexed.ofLexeme?`).
-/

namespace KScript

open Scan

/-- The text of the token is a lexeme of its kind with its value. -/
def Token.Lexed (t : Token) : Prop := Lexeme t.lexeme.toList t.kind t.literal

/-- No negative zero. -/
def Literal.Lexed : Literal → Prop
  | .number x => Double.isNegative x = false
  | _ => True

/-- The token that a text is, on no line. -/
def Token.ofLexeme? (text : String) : Option Token :=
  (Scan.ofSource text).tokens.head?.map (Token.relined fun _ => 0)

/-! ## Scanning a lexeme -/

section Alone

variable {text : List Char} {kind : Kind} {literal : Option Literal}

lemma not_commentAt_of_lexeme (h : Lexeme text kind literal) : ¬CommentAt text := by
  have hmarks : ∀ entry ∈ Kind.marks, ¬['/', '/'] <+: entry.1 := by decide
  rintro ⟨tail, rfl⟩
  have hmark := (h.of_mark (by decide) (by decide) (by decide)).1
  exact hmarks _ hmark (List.prefix_append _ _)

/-- Nothing is at fault in a lexeme. -/
lemma not_faultAt_of_lexeme (h : Lexeme text kind literal) : ¬FaultAt text := by
  obtain ⟨c, more, rfl⟩ := List.exists_cons_of_ne_nil h.ne_nil
  refine not_faultAt h ?_ ?_
  · rintro entry hentry after rfl rfl
    obtain ⟨x, hnumeral, -, -⟩ := h.of_digit rfl
    obtain ⟨hne, hdigits, -⟩ := hnumeral.of_base hentry
    obtain ⟨d, rest, rfl⟩ := List.exists_cons_of_ne_nil hne
    exact ⟨d, rfl, hdigits d List.mem_cons_self⟩
  · intro hquote
    obtain ⟨body, rfl, -⟩ := h.of_quote hquote
    simp

/-- A lexeme that nothing follows is the next piece. -/
lemma next_of_lexeme (h : Lexeme text kind literal) : Next (.token kind literal) text [] := by
  refine .token h ?_ ?_ ?_
  · intro other _ _ _ hbegin
    simpa using hbegin.length_le
  · rw [List.append_nil]
    exact not_commentAt_of_lexeme h
  · rw [List.append_nil]
    exact not_faultAt_of_lexeme h

end Alone

/-- **A lexeme is scanned as one token.** -/
theorem Scan.ofSource_lexeme {text : String} {kind : Kind} {literal : Option Literal}
    (h : Lexeme text.toList kind literal) : Scan.ofSource text
      = ⟨[⟨kind, text, literal, lineAfter text.toList⟩], lineAfter text.toList, []⟩ := by
  have hcut : fragments text.toList = [⟨.token kind literal, text.toList⟩] := by
    have hstep := cut_of_next (next_of_lexeme h)
    rw [List.append_nil] at hstep
    exact hstep.trans rfl
  simp [Scan.ofSource, hcut, numbered, tokenOf?, faultOf?, lineBreaks, lineAfter]

/-- **The text of a token tells the rest of it**, apart from its line. -/
theorem Token.Lexed.ofLexeme? {t : Token} (h : t.Lexed) :
    Token.ofLexeme? t.lexeme = some (t.relined fun _ => 0) := by
  rw [Token.ofLexeme?, Scan.ofSource_lexeme h]
  rfl

/-! ## The tokens of a scan -/

lemma Tiled.lexed {before whole : List Char} {tokens : List Token} {faults : List Diagnostic}
    (h : Tiled before whole tokens faults) : ∀ t ∈ tokens, t.Lexed := by
  induction h with
  | done => simp
  | gap _ _ _ ih => exact ih
  | fault _ _ ih => exact ih
  | token h _ ih =>
      cases h with
      | token hlexeme =>
          refine List.forall_mem_cons.mpr ⟨?_, ih⟩
          rw [Token.Lexed, String.toList_ofList]
          exact hlexeme

/-- **Every token of a scan is lexed.** -/
theorem Scan.lexed_ofSource (source : String) : ∀ t ∈ (Scan.ofSource source).tokens, t.Lexed :=
  (tiled_cut [] source.toList).lexed

/-- A lexed word has the kind that its text tells. -/
lemma Token.Lexed.scanned {t : Token} (h : t.Lexed) : t.Scanned := by
  intro hword
  rw [Token.Lexed] at h
  generalize hlexeme : t.lexeme.toList = text at h
  generalize t.kind = kind, t.literal = literal at h hword
  cases h with
  | word => rw [← hlexeme, String.ofList_toList]
  | mark hmark =>
      have hnone : ∀ entry ∈ Kind.marks, entry.2.isWord = false := by decide
      exact absurd hword (Bool.eq_false_iff.mp (hnone _ hmark))
  | string | number => exact absurd hword (by decide)

/-! ## Values and operators -/

lemma Double.isNegative_ofRatio (num den : Nat) :
    Double.isNegative (Double.ofRatio false num den) = false :=
  Double.isNegative_ofMagnitude Double.nearestMagnitude_le

/-- No numeral has a sign. -/
lemma Lexeme.lexed_literal {text : List Char} {kind : Kind} {literal : Option Literal}
    (h : Lexeme text kind literal) : ∀ value ∈ literal, value.Lexed := by
  rintro value rfl
  cases h with
  | string => trivial
  | number h => cases h <;> exact Double.isNegative_ofRatio _ _

lemma Token.Lexed.denotes? {t : Token} (h : t.Lexed) {value : Literal} (hvalue : t.denotes? = some value) :
    value.Lexed := by
  have hliteral : (t.literal.getD .zilch).Lexed := by
    cases heq : t.literal with
    | none => trivial
    | some literal => exact h.lexed_literal literal heq
  unfold Token.denotes? at hvalue
  split at hvalue
  case h_7 => cases hvalue
  all_goals obtain rfl := Option.some.inj hvalue
  case h_4 => exact Double.isNegative_ofMagnitude le_rfl
  case h_5 | h_6 => exact hliteral
  all_goals trivial

/-- The operator of a compound assignment is spelled like any other. -/
lemma Token.lexed_operatorOf (equals : Token) : equals.operatorOf.Lexed := by
  unfold Token.operatorOf Parser.compoundOperator Token.Lexed
  split <;> exact .mark (by simp [Kind.marks])

end KScript

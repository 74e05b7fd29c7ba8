import KScript.Token.Scan
import Mathlib.Tactic.Common

/-!
# Words

A word of a source text is a token whose kind is told by its text: a reserved word has the kind of that
word, and everything else is an identifier.  So an identifier that was scanned is never spelled like a
reserved word.
-/

namespace KScript

/-- The kinds that are told by the text of a word. -/
def Kind.isWord (kind : Kind) : Bool := kind = .identifier ∨ kind ∈ Kind.keywords.map Prod.snd

/-- The token has the kind that its text tells, if it is a word. -/
def Token.Scanned (t : Token) : Prop := t.kind.isWord = true → Kind.ofWord t.lexeme = t.kind

lemma Kind.mem_keywords_of_ofWord {word : String} (h : Kind.ofWord word ≠ .identifier) :
    (word, Kind.ofWord word) ∈ Kind.keywords := by
  unfold Kind.ofWord at h ⊢
  cases hlookup : Kind.keywords.lookup word with
  | none => simp [hlookup] at h
  | some kind =>
      obtain ⟨l₁, l₂, heq, -⟩ := List.lookup_eq_some_iff.mp hlookup
      simp [heq]

/-- A reserved word has one spelling. -/
lemma Kind.eq_of_ofWord {word text : String} {kind : Kind} (h : Kind.ofWord word = kind)
    (hkind : kind ≠ .identifier)
    (hunique : ∀ entry ∈ Kind.keywords, entry.2 = kind → entry.1 = text) : word = text := by
  have hmem := Kind.mem_keywords_of_ofWord (h.trans_ne hkind)
  exact hunique _ hmem h

end KScript

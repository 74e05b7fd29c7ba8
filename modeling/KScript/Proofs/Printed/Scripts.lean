import KScript.Proofs.Grammar.Spelled
import KScript.Proofs.Printed.Trees

/-!
# The prefix form is unambiguous

Two expressions of accepted scripts have the same prefix form exactly if they are the same expression, apart
from the lines of their tokens and the flags of their properties, as long as no name in the scripts is
spelled like a truth value.
-/

namespace KScript

open KScript.Parser (Tree)

/-- The form of an expression that stands in a script says the expression. -/
lemma Phrase.Spelled.says_form {ts : List Token} {e : Tree} (h : Phrase.Spelled ts (.expr e))
    (hts : ∀ t ∈ ts, t.Clear) : e.form.Says e.unplaced := by
  cases h with
  | expr hspells htext => exact Expr.says_form hspells fun t ht => hts t (htext t ht)
  | compound hspells hkind hname _ htext =>
      exact Expr.says_form_of_compound (hts _ hname) hkind hspells fun t ht => hts t (htext t ht)
  | implied hvalue =>
      simp only [List.mem_cons, List.not_mem_nil, or_false] at hvalue
      rcases hvalue with rfl | rfl
      · exact Literal.says_word ("True", .bool true) (by simp [Literal.words])
      · exact Literal.says_number (Double.isNegative_ofRatio 0 1)
          ((Double.magnitude_ofMagnitude Double.nearestMagnitude_le).trans_le Double.nearestMagnitude_le)

/-- Forms with the same text say the same expression. -/
lemma Form.Says.eq_of_text_eq {f g : Form} {e e' : Tree} (h : f.Says e) (h' : g.Says e')
    (htext : f.text = g.text) : e = e' := by
  have hends : EndsWord [] := by simp [EndsWord]
  have happend : f.text ++ [] = g.text ++ [] := by rw [htext]
  obtain ⟨rfl, -⟩ := Form.text_append_inj f h.proper h'.proper hends hends happend
  exact Option.some.inj (h.tree.symm.trans h'.tree)

/-- No name in the script is spelled like a truth value. -/
def Scan.NamesClear (source : String) : Prop :=
  ∀ t ∈ (Scan.ofSource source).tokens, t.kind = .identifier → t.lexeme ≠ "True" ∧ t.lexeme ≠ "False"

lemma Parsed.says_form {source : String} {around : List Construct} {e : Tree}
    (haccepted : (Parsed.ofSource source).reports = []) (hclear : Scan.NamesClear source)
    (hat : (Parsed.ofSource source).program.At around (.expr e)) : e.form.Says e.unplaced := by
  have hspells := Parsed.spells_of_reports_eq_nil haccepted
  refine (hat.spelled hspells).says_form fun t ht => ⟨Scan.lexed_ofSource source t ht, hclear t ht⟩

/-- **The prefix form is unambiguous.**  Expressions that were read from any scripts without a complaint have
one prefix form only if they are equal up to the lines of their tokens and the flags of their properties, and
then they do. -/
theorem Expr.prefixForm_eq_iff {source source' : String} {around around' : List Construct} {e e' : Tree}
    (haccepted : (Parsed.ofSource source).reports = [])
    (haccepted' : (Parsed.ofSource source').reports = [])
    (hclear : Scan.NamesClear source) (hclear' : Scan.NamesClear source')
    (hat : (Parsed.ofSource source).program.At around (.expr e))
    (hat' : (Parsed.ofSource source').program.At around' (.expr e')) :
    e.prefixForm = e'.prefixForm ↔ e.unplaced = e'.unplaced := by
  constructor
  · intro htext
    have hform := Parsed.says_form haccepted hclear hat
    have hform' := Parsed.says_form haccepted' hclear' hat'
    refine hform.eq_of_text_eq hform' ?_
    rw [Expr.text_form, Expr.text_form, htext]
  · intro htree
    rw [← Expr.prefixForm_unplaced e, htree, Expr.prefixForm_unplaced]

/-- The prefix form of a lone expression. -/
def Program.printed? : Program Unit → Option String
  | [.expr e] => some e.prefixForm
  | _ => none

lemma Program.exists_of_printed? {program : Program Unit} {text : String}
    (h : program.printed? = some text) : ∃ e, program = [.expr e] ∧ e.prefixForm = text := by
  unfold printed? at h
  split at h
  · next e => exact ⟨e, rfl, Option.some.inj h⟩
  · cases h

/-- One assignment with different quotes, on one line and on two. -/
theorem Expr.prefixForm_eq_iff_spellings :
    ∃ e e', (Parsed.ofSource "x.y = f(\"(a b)\");").program = [.expr e]
      ∧ (Parsed.ofSource "x.\ny = f('(a b)');").program = [.expr e']
      ∧ e.prefixForm = "(.= x y (call f '(a b)'))" ∧ e.unplaced = e'.unplaced := by
  obtain ⟨e, hread, htext⟩ := Program.exists_of_printed?
    (show (Parsed.ofSource "x.y = f(\"(a b)\");").program.printed? = some "(.= x y (call f '(a b)'))" by
      decide +kernel)
  obtain ⟨e', hread', htext'⟩ := Program.exists_of_printed?
    (show (Parsed.ofSource "x.\ny = f('(a b)');").program.printed? = some "(.= x y (call f '(a b)'))" by
      decide +kernel)
  have hat {source : String} {e : Tree} (h : (Parsed.ofSource source).program = [.expr e]) :
      (Parsed.ofSource source).program.At [] (.expr e) :=
    .part (.top (h ▸ List.mem_cons_self)) List.mem_cons_self
  have hclear {source : String} (h : (Scan.ofSource source).tokens.all fun t =>
      t.lexeme ≠ "True" ∧ t.lexeme ≠ "False") : Scan.NamesClear source :=
    fun t ht _ => by simpa using List.all_eq_true.mp h t ht
  have hsame := Expr.prefixForm_eq_iff (by decide +kernel) (by decide +kernel) (hclear (by decide +kernel))
    (hclear (by decide +kernel)) (hat hread) (hat hread')
  exact ⟨e, e', hread, hread', htext, hsame.mp (htext.trans htext'.symm)⟩

end KScript

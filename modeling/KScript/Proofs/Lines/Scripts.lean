import KScript.Proofs.Lines.Grammar
import KScript.Proofs.Lines.Scopes
import KScript.Proofs.Session.Reached
import KScript.Proofs.Token.Seam

/-!
# Scripts and lines

A script that is accepted can be put behind another one, or behind blank lines: it is accepted there too, and
what is run for it is its program on other lines.
-/

namespace KScript

open Scan

lemma Stmt.SpellsAll.append {context : Parser.Context} {ss ss' : List Parser.Item} {ts ts' : List Token}
    (h : Stmt.SpellsAll context ss ts) (h' : Stmt.SpellsAll context ss' ts') :
    Stmt.SpellsAll context (ss ++ ss') (ts ++ ts') := by
  induction ss generalizing ts with
  | nil =>
      obtain rfl := h
      exact h'
  | cons s rest ih =>
      obtain ⟨a, b, rfl, hs, hrest⟩ := h
      exact ⟨a, b ++ ts', List.append_assoc .., hs, ih hrest⟩

namespace Session

variable {source : String}

/-! ## Accepted scripts -/

/-- The tokens of an accepted script spell a program that keeps the rules of scopes. -/
lemma spells_of_prepared (h : (prepare source).1 = []) :
    (Scan.ofSource source).faults = []
      ∧ (Parsed.ofSource source).program.Spells (Scan.ofSource source).tokens
      ∧ (Parsed.ofSource source).program.check = [] := by
  obtain ⟨hreports, hcheck, -⟩ := prepare_accepted h
  obtain ⟨new, hnew⟩ := Parsed.reports_ofTokens (Scan.ofSource source).tokens
    (Scan.ofSource source).endLine (Scan.ofSource source).faults
  have hfaults : (Scan.ofSource source).faults ++ new = [] := hnew.symm.trans hreports
  exact ⟨(List.append_eq_nil_iff.mp hfaults).1, Parsed.spells_of_reports_eq_nil hreports, hcheck⟩

/-- A script whose tokens spell a program that keeps the rules of scopes is accepted. -/
lemma prepare_of_spells {program : Program Unit} (hfaults : (Scan.ofSource source).faults = [])
    (hspells : program.Spells (Scan.ofSource source).tokens) (hcheck : program.check = []) :
    prepare source = ([], program.resolve) := by
  have hparsed : Parsed.ofSource source = ⟨program, []⟩ := by
    have hrun := Parser.program_reads ((Scan.ofSource source).tokens.length + 1) hspells
      (Nat.lt_succ_self _) (Scan.ofSource source).endLine []
    rw [List.append_nil] at hrun
    rw [Parsed.ofSource, hfaults, Parsed.ofTokens, hrun]
  unfold prepare
  rw [hparsed]
  exact Prod.ext hcheck rfl

/-! ## One script behind another -/

/-- Two scripts that are accepted, one behind the other, are accepted as one. -/
lemma prepare_append {first second : String} (hfirst : (prepare first).1 = [])
    (hsecond : (prepare second).1 = []) :
    prepare (first ++ "\n" ++ second)
      = ([], (prepare first).2 ++ Stmt.relinedAll (· + lineAfter first.toList) (prepare second).2) := by
  obtain ⟨hfaults₁, hspells₁, hcheck₁⟩ := spells_of_prepared hfirst
  obtain ⟨hfaults₂, hspells₂, hcheck₂⟩ := spells_of_prepared hsecond
  obtain ⟨htokens, hfaults, -⟩ := Scan.ofSource_seam (a := first) (b := second) (by simp [hfaults₁])
  rw [hfaults₁, hfaults₂, List.map_nil, List.append_nil] at hfaults
  have hspells := hspells₁.append (hspells₂.relined (f := (· + lineAfter first.toList)))
  rw [← htokens] at hspells
  have hcheck : Program.check ((Parsed.ofSource first).program
      ++ Stmt.relinedAll (· + lineAfter first.toList) (Parsed.ofSource second).program) = [] := by
    rw [Program.check_append, Program.check_relined, hcheck₁, hcheck₂]
    rfl
  rw [prepare_of_spells hfaults hspells hcheck, Program.resolve_append, Program.resolve_relined,
    (prepare_accepted hfirst).2.2, (prepare_accepted hsecond).2.2]

/-- The script behind blank lines. -/
def pushedDown : Nat → String → String
  | 0, source => source
  | n + 1, source => "\n" ++ pushedDown n source

lemma ofSource_pushedDown (n : Nat) (source : String) :
    (Scan.ofSource (pushedDown n source)).tokens
        = (Scan.ofSource source).tokens.map (Token.relined (· + n))
      ∧ (Scan.ofSource (pushedDown n source)).faults
        = (Scan.ofSource source).faults.map (Diagnostic.relined (· + n)) := by
  induction n with
  | zero => exact ⟨(List.map_id _).symm, (List.map_id _).symm⟩
  | succ n ih =>
      have hempty : (Scan.ofSource "").tokens = [] ∧ (Scan.ofSource "").faults = [] := ⟨rfl, rfl⟩
      obtain ⟨htokens, hfaults, -⟩ := Scan.ofSource_seam (a := "") (b := pushedDown n source)
        (by simp [hempty.2])
      rw [String.empty_append, ih.1, hempty.1, List.nil_append, List.map_map] at htokens
      rw [String.empty_append, ih.2, hempty.2, List.nil_append, List.map_map] at hfaults
      exact ⟨htokens, hfaults⟩

/-- A script that is accepted is accepted behind blank lines. -/
lemma prepare_pushedDown (n : Nat) (h : (prepare source).1 = []) :
    prepare (pushedDown n source) = ([], Stmt.relinedAll (· + n) (prepare source).2) := by
  obtain ⟨hfaults, hspells, hcheck⟩ := spells_of_prepared h
  obtain ⟨htokens', hfaults'⟩ := ofSource_pushedDown n source
  rw [hfaults] at hfaults'
  have hspells' := hspells.relined (f := (· + n))
  rw [← htokens'] at hspells'
  have hcheck' : Program.check (Stmt.relinedAll (· + n) (Parsed.ofSource source).program) = [] := by
    rw [Program.check_relined, hcheck]
    rfl
  rw [prepare_of_spells hfaults' hspells' hcheck', Program.resolve_relined, (prepare_accepted h).2.2]

end Session

end KScript

import KScript.Proofs.Grammar.Rendering
import KScript.Proofs.Parser.StatementComplete

/-!
# Parsing and writing

The two directions put together, for whole scripts: a script that is read without a complaint is spelled
by the statements that were read, and a program that is well formed is read back from everything that
spells it, so also from what is written down for it.
-/

namespace KScript

variable {program : Program Unit} {ts : List Token}

/-- The parser adds its complaints to those that were made before. -/
lemma Parsed.reports_ofTokens (tokens : List Token) (endLine : Nat) (reports : List Diagnostic) :
    ∃ new, (Parsed.ofTokens tokens endLine reports).reports = reports ++ new := by
  have hmeets := Parser.program_meets (tokens.length + 1) ⟨tokens, endLine, reports⟩ (Nat.lt_succ_self _)
  unfold Parsed.ofTokens
  cases hrun : Parser.program (tokens.length + 1) ⟨tokens, endLine, reports⟩ with
  | ok items c | error _ c =>
      rw [hrun] at hmeets
      obtain ⟨-, new, -, hnew, -⟩ := hmeets
      exact ⟨new, hnew⟩

/-- The statements that are read without a complaint spell the tokens, whatever was complained about
before. -/
theorem Parsed.spells_of_reports_eq_nil {endLine : Nat} {reports : List Diagnostic}
    (h : (Parsed.ofTokens ts endLine reports).reports = []) :
    Program.Spells (Parsed.ofTokens ts endLine reports).program ts := by
  have hmeets := Parser.program_meets (ts.length + 1) ⟨ts, endLine, reports⟩ (Nat.lt_succ_self _)
  unfold Parsed.ofTokens at h ⊢
  match hrun : Parser.program (ts.length + 1) ⟨ts, endLine, reports⟩ with
  | .ok items c =>
      rw [hrun] at h hmeets
      obtain ⟨used, new, hrest, hnew, hQ⟩ := hmeets
      rw [show c.reports = [] from h] at hnew
      obtain ⟨hend, hall⟩ := hQ (List.append_eq_nil_iff.mp hnew.symm).2
      rw [show ts = used ++ c.rest from hrest, hend, List.append_nil]
      exact hall
  | .error _ c =>
      rw [hrun] at h hmeets
      obtain ⟨used, new, -, hnew, hne⟩ := hmeets
      rw [show c.reports = [] from h] at hnew
      exact absurd (List.append_eq_nil_iff.mp hnew.symm).2 hne

/-- **A script that is accepted is read as it is spelled.**  The statements spell all of its tokens, in
order and with no parenthesis added or left out, and they stand on the ladder of operators as they
should. -/
theorem Parsed.spells_of_accepted {endLine : Nat}
    (h : (Parsed.ofTokens ts endLine []).reports = []) :
    Program.Spells (Parsed.ofTokens ts endLine []).program ts
      ∧ Program.WellFormed (Parsed.ofTokens ts endLine []).program := by
  have hspells := Parsed.spells_of_reports_eq_nil h
  exact ⟨hspells, Stmt.wellFormedAll_of_spells hspells⟩

/-- `if (a) while (b) inc a; else a += b ? a : -b ^ a;`: the `else` belongs to the only `if` there is, and
the compound assignment takes in the whole conditional. -/
def spelledScript : List Token :=
  let a : Token := ⟨.identifier, "a", none, 1⟩
  let b : Token := ⟨.identifier, "b", none, 1⟩
  [Kind.ifWord.token, Kind.leftParen.token, a, Kind.rightParen.token, Kind.whileWord.token,
    Kind.leftParen.token, b, Kind.rightParen.token, Kind.incWord.token, a, Kind.semicolon.token,
    Kind.elseWord.token, a, Kind.plusEqual.token, b, Kind.question.token, a, Kind.colon.token,
    Kind.minus.token, b, Kind.caret.token, a, Kind.semicolon.token]

theorem Parsed.spells_spelledScript :
    (Parsed.ofTokens spelledScript 1 []).reports = []
      ∧ Program.Spells (Parsed.ofTokens spelledScript 1 []).program spelledScript
      ∧ Program.WellFormed (Parsed.ofTokens spelledScript 1 []).program := by
  have h : (Parsed.ofTokens spelledScript 1 []).reports = [] := by decide +kernel
  exact ⟨h, Parsed.spells_of_accepted h⟩

/-- **A well-formed program is read back** from what is written down for it, and from everything else
that spells it. -/
theorem Parsed.ofTokens_render (h : Program.WellFormed program) (endLine : Nat) :
    Parsed.ofTokens program.render endLine [] = ⟨program, []⟩
      ∧ ∀ ts, Program.Spells program ts → Parsed.ofTokens ts endLine [] = ⟨program, []⟩ := by
  have hreads : ∀ ts, Program.Spells program ts →
      Parsed.ofTokens ts endLine [] = ⟨program, []⟩ := by
    intro ts hspells
    have hrun := Parser.program_reads (ts.length + 1) hspells (Nat.lt_succ_self _) endLine []
    rw [List.append_nil] at hrun
    rw [Parsed.ofTokens, hrun]
  exact ⟨hreads _ (Stmt.spells_renderAll h), hreads⟩

/-- `while (a) { if (a) break; else a += a and a ? a : a; }`, as a tree. -/
def loopProgram : Program Unit :=
  let a : Reference Unit := ⟨⟨.identifier, "a", none, 1⟩, ()⟩
  let plus : Token := ⟨.plus, "+", none, 1⟩
  let both : Token := ⟨.andWord, "and", none, 1⟩
  [.loop (.variable a) (.block [.branch (.variable a) (.jump .breakLoop ⟨.breakWord, "break", none, 1⟩)
    (some (.expr (.assign a (.binary (.variable a) plus (.logical (.variable a) both
      (.conditional (.variable a) (.variable a) (.variable a)))))))])]

theorem Parsed.ofTokens_render_loopProgram :
    Program.WellFormed loopProgram
      ∧ Parsed.ofTokens loopProgram.render 1 [] = ⟨loopProgram, []⟩ := by
  have hplus : ∃ equals : Token, equals.kind.isCompound
      ∧ (⟨.plus, "+", none, 1⟩ : Token) = equals.operatorOf :=
    ⟨⟨.plusEqual, "+=", none, 1⟩, rfl, rfl⟩
  have h : Program.WellFormed loopProgram := by
    simp [Program.WellFormed, loopProgram, Stmt.WellFormedAll, Stmt.WellFormed, Stmt.WellFormedOption,
      Stmt.Fits, Expr.WellFormed, Expr.WellFormedCompound, Expr.Fits, Stmt.isDeclaration, Stmt.endsInIf,
      Jump.kind, Kind.rung, Expr.rank, Expr.endsOpen, Expr.beginsWithStep, hplus]
  exact ⟨h, (Parsed.ofTokens_render h 1).1⟩

end KScript

import KScript.Dump.Format
import KScript.Proofs.Dump.Reading
import KScript.Proofs.Dump.Trees
import KScript.Proofs.Parser.RoundTrip

/-!
# The JSON dump is faithful

A dump leaves out the lines of tokens and nothing else.  Moving a program to other lines keeps its dump
(`Dump.text_relined`), and the program of a script that was accepted can be read off the text of its
dump, on line zero throughout (`Dump.program?_text`).
-/

namespace KScript

/-! ## Lines are left out -/

section Lines

variable {β : Type} (f : Nat → Nat)

@[simp] lemma Data.ofToken_relined (t : Token) : Data.ofToken (t.relined f) = Data.ofToken t := rfl

mutual

lemma Expr.toData_relined : ∀ e : Expr β, (e.relined f).toData = e.toData
  | .literal _ | .variable _ | .step .up _ | .step .down _ | .receiver _ | .inherited _ _ => rfl
  | .array items => by simp [Expr.relined, Expr.toData, Expr.listToData_relined items]
  | .grouping inner => by simp [Expr.relined, Expr.toData, Expr.toData_relined inner]
  | .unary _ operand => by simp [Expr.relined, Expr.toData, Expr.toData_relined operand]
  | .binary left _ right | .logical left _ right => by
      simp [Expr.relined, Expr.toData, Expr.toData_relined left, Expr.toData_relined right]
  | .conditional condition yes no => by
      simp [Expr.relined, Expr.toData, Expr.toData_relined condition, Expr.toData_relined yes,
        Expr.toData_relined no]
  | .assign _ value => by simp [Expr.relined, Expr.toData, Reference.relined, Expr.toData_relined value]
  | .call callee _ args => by
      simp [Expr.relined, Expr.toData, Expr.toData_relined callee, Expr.listToData_relined args]
  | .get object _ _ => by simp [Expr.relined, Expr.toData, Expr.toData_relined object]
  | .set object _ value _ => by
      simp [Expr.relined, Expr.toData, Expr.toData_relined object, Expr.toData_relined value]

lemma Expr.listToData_relined : ∀ items : List (Expr β),
    Expr.listToData (Expr.relinedAll f items) = Expr.listToData items
  | [] => rfl
  | e :: items => by
      simp [Expr.relinedAll, Expr.listToData, Expr.toData_relined e, Expr.listToData_relined items]

end

section Parts

variable {f}

lemma Data.ofOption_relined {α : Type} {toData : α → Data} {move : α → α}
    (h : ∀ a, toData (move a) = toData a) (value : Option α) :
    Data.ofOption toData (value.map move) = Data.ofOption toData value := by
  cases value with
  | none => rfl
  | some a => exact h a

lemma Data.varNode_relined (name : Token) (value : Option (Expr β)) :
    Data.varNode (name.relined f) (value.map (Expr.relined f)) = Data.varNode name value := by
  simp [Data.varNode, Data.ofOption_relined (Expr.toData_relined f)]

lemma Data.exprNode_relined (e : Expr β) : Data.exprNode (e.relined f) = Data.exprNode e := by
  simp [Data.exprNode, Expr.toData_relined]

lemma Data.ofForStart_relined (start : ForStart β) :
    Data.ofForStart (start.relined f) = Data.ofForStart start := by
  cases start with
  | var name value => exact Data.varNode_relined name value
  | expr e => exact Data.exprNode_relined e

lemma Data.routineNode_relined (name : Token) (params : List Token) (body : List Data) :
    Data.routineNode (name.relined f) (params.map (Token.relined f)) body
      = Data.routineNode name params body := by
  simp [Data.routineNode, Data.ofTokens, Function.comp_def]

end Parts

mutual

lemma Stmt.toData_relined : ∀ s : Stmt β, (s.relined f).toData = s.toData
  | .expr e => Data.exprNode_relined e
  | .echo e => by simp [Stmt.relined, Stmt.toData, Expr.toData_relined]
  | .var name value => Data.varNode_relined name value
  | .block body => by simp [Stmt.relined, Stmt.toData, Stmt.listToData_relined body]
  | .exit _ code => by simp [Stmt.relined, Stmt.toData, Expr.toData_relined]
  | .branch condition yes no => by
      simp [Stmt.relined, Stmt.toData, Expr.toData_relined, Stmt.toData_relined yes,
        Stmt.optionToData_relined no]
  | .loop condition body => by
      simp [Stmt.relined, Stmt.toData, Expr.toData_relined, Stmt.toData_relined body]
  | .forLoop start condition after body => by
      simp [Stmt.relined, Stmt.toData, Expr.toData_relined, Stmt.toData_relined body,
        Data.ofOption_relined Data.ofForStart_relined, Data.ofOption_relined Data.exprNode_relined]
  | .step .up _ | .step .down _ | .jump .breakLoop _ | .jump .continueLoop _ => rfl
  | .routine ⟨name, params, body⟩ => by
      simp [Stmt.relined, Stmt.toData, Data.routineNode_relined, Stmt.listToData_relined body]
  | .giveBack _ value => by
      simp [Stmt.relined, Stmt.toData, Data.ofOption_relined (Expr.toData_relined f)]
  | .classDecl name superclass methods statics getters setters => by
      have hsuper : Data.ofOption Data.ofReference (superclass.map (Reference.relined f))
          = Data.ofOption Data.ofReference superclass := by cases superclass <;> rfl
      simp [Stmt.relined, Stmt.toData, hsuper, Stmt.routinesToData_relined methods,
        Stmt.routinesToData_relined statics, Stmt.routinesToData_relined getters,
        Stmt.routinesToData_relined setters]

lemma Stmt.listToData_relined : ∀ items : List (Stmt β),
    Stmt.listToData (Stmt.relinedAll f items) = Stmt.listToData items
  | [] => rfl
  | s :: items => by
      simp [Stmt.relinedAll, Stmt.listToData, Stmt.toData_relined s, Stmt.listToData_relined items]

lemma Stmt.optionToData_relined : ∀ s : Option (Stmt β),
    Stmt.optionToData (Stmt.relinedOption f s) = Stmt.optionToData s
  | none => rfl
  | some s => Stmt.toData_relined s

lemma Stmt.routinesToData_relined : ∀ routines : List (Routine (Stmt β)),
    Stmt.routinesToData (Stmt.relinedRoutines f routines) = Stmt.routinesToData routines
  | [] => rfl
  | ⟨name, params, body⟩ :: routines => by
      simp [Stmt.relinedRoutines, Stmt.routinesToData, Data.routineNode_relined,
        Stmt.listToData_relined body, Stmt.routinesToData_relined routines]

end

end Lines

/-! ## Reading a dump -/

namespace Dump

/-- The program that a JSON text is the dump of, on line zero throughout. -/
def program? (text : String) : Option (Program Unit) :=
  (Json.ofJson text).bind fun d => d.recovered?.bind fun n => n.items? Node.stmt?

/-- **A program of lexed tokens is read off its dump.** -/
theorem program?_text {program : Program Unit} (h : Stmt.LexedAll program) :
    program? (text .json program) = some (Stmt.relinedAll noLine program) := by
  have hdata : (Data.ofProgram program).recovered?
      = some (.list ((Stmt.relinedAll noLine program).map .stmt)) :=
    Data.recovered?_list (Stmt.recoveredAll?_toData h)
  rw [program?, text, Json.ofJson_text, Option.bind_some, hdata, Option.bind_some, Node.items?_stmt]

/-- Lines are left out. -/
lemma text_relined {β : Type} (format : Format) (f : Nat → Nat) (program : Program β) :
    text format (Stmt.relinedAll f program) = text format program := by
  have hdata : Data.ofProgram (Stmt.relinedAll f program) = Data.ofProgram program := by
    rw [Data.ofProgram, Data.ofProgram, Stmt.listToData_relined]
  cases format <;> simp only [text, hdata]

end Dump

/-- The program of a script that was accepted is made of lexed tokens. -/
lemma Parsed.lexed_program {source : String} (h : (Parsed.ofSource source).reports = []) :
    Stmt.LexedAll (Parsed.ofSource source).program :=
  Stmt.lexedAll_of_spells (Parsed.spells_of_reports_eq_nil h) (Scan.lexed_ofSource source)

namespace Dump

/-- The format is chosen by its name. -/
lemma textAs_json {β : Type} (program : Program β) :
    textAs (some "json") program = .ok (text .json program) := by
  have hname : "json".toLower = "json" := by
    apply String.toList_injective
    simp [String.toLower]
  simp [textAs, hname, Format.ofName?]

/-- **The JSON dump is faithful.**  Two scripts that scan and parse without a complaint have the same dump
just when their programs are the same but for the lines of their tokens, and the program, its lines apart,
can be read off the text. -/
theorem json_faithful {source other : String} (h : (Parsed.ofSource source).reports = [])
    (h' : (Parsed.ofSource other).reports = []) :
    (textAs (some "json") (Parsed.ofSource source).program
        = textAs (some "json") (Parsed.ofSource other).program
      ↔ Stmt.relinedAll noLine (Parsed.ofSource source).program
        = Stmt.relinedAll noLine (Parsed.ofSource other).program)
    ∧ ∃ dump, textAs (some "json") (Parsed.ofSource source).program = .ok dump
      ∧ program? dump = some (Stmt.relinedAll noLine (Parsed.ofSource source).program) := by
  have hread := program?_text (Parsed.lexed_program h)
  have hread' := program?_text (Parsed.lexed_program h')
  refine ⟨⟨fun htext => ?_, fun hrelined => ?_⟩, _, textAs_json _, hread⟩
  · rw [textAs_json, textAs_json, Except.ok.injEq] at htext
    rw [htext, hread'] at hread
    exact (Option.some.inj hread).symm
  · rw [textAs_json, textAs_json, ← text_relined .json noLine, hrelined, text_relined]

/-- A compound assignment and what it stands for, on two lines: the dumps are the same text, so the programs
differ in lines only. -/
theorem json_faithful_compound :
    (Parsed.ofSource "a += 0.5;").reports = [] ∧ (Parsed.ofSource "a =\na + 0.5;").reports = []
    ∧ textAs (some "json") (Parsed.ofSource "a += 0.5;").program
      = textAs (some "json") (Parsed.ofSource "a =\na + 0.5;").program
    ∧ Stmt.relinedAll noLine (Parsed.ofSource "a += 0.5;").program
      = Stmt.relinedAll noLine (Parsed.ofSource "a =\na + 0.5;").program := by
  have h : (Parsed.ofSource "a += 0.5;").reports = [] := by decide +kernel
  have h' : (Parsed.ofSource "a =\na + 0.5;").reports = [] := by decide +kernel
  have hsame : text .json (Parsed.ofSource "a += 0.5;").program
      = text .json (Parsed.ofSource "a =\na + 0.5;").program := by decide +kernel
  have htext : textAs (some "json") (Parsed.ofSource "a += 0.5;").program
      = textAs (some "json") (Parsed.ofSource "a =\na + 0.5;").program := by
    rw [textAs_json, textAs_json, hsame]
  exact ⟨h, h', htext, (json_faithful h h').1.mp htext⟩

end Dump

end KScript

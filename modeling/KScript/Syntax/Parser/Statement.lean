import KScript.Syntax.Parser.Expression
import KScript.Token.Scan

/-!
# The grammar of statements

Declarations, statements and blocks.  Whether a statement stands in a loop or in a class body is a
`Context` that is handed down, so it is right again after every error.

A declaration that meets an error is dropped: the tokens up to the next place where a statement can
begin are passed over (`resume`), and reading goes on there.
-/

namespace KScript.Parser

/-- What a statement is written in. -/
structure Context where
  /-- The body of a loop, with no routine in between. -/
  inLoop : Bool
  /-- The body of a class. -/
  inClass : Bool

/-- The statements that the parser builds. -/
abbrev Item := Stmt Unit

/-- How the grammar of statements enters itself again. -/
structure Grammar where
  statement : Context → Parser Item
  /-- `none` for a declaration that was dropped. -/
  declaration : Context → Parser (Option Item)

/-! ## Blocks and routines -/

/-- Whether a block is over: at its brace, or because nothing is left. -/
def blockOver : Parser Bool := do
  return (← nextIs .rightBrace) || (← atEnd)

/-- The declarations up to the end of a block, without those that were dropped. -/
def declarations (grammar : Grammar) (context : Context) : Nat → Parser (List Item)
  | 0 => return []
  | fuel + 1 => do
    if ← blockOver then return []
    match ← grammar.declaration context with
    | some item => return item :: (← declarations grammar context fuel)
    | none => declarations grammar context fuel

/-- A block after its opening brace. -/
def block (grammar : Grammar) (fuel : Nat) (context : Context) : Parser (List Item) := do
  let body ← declarations grammar context fuel
  let _ ← expect .rightBrace .blockEnd
  return body

/-- Complains about a getter with parameters, or a setter that has not exactly one. -/
def checkParams (form : RoutineForm) (params : List Token) : Parser Unit := do
  match form, params with
  | .getter, _ :: _ => report (← peek?) .getterParameters
  | .setter, [_] => return
  | .setter, _ => report (← peek?) .setterParameters
  | _, _ => return

/-- A routine from its name on.  Jumps do not cross its border. -/
def routine (grammar : Grammar) (fuel : Nat) (context : Context) (form : RoutineForm) :
    Parser (Routine Item) := do
  let name ← expect .identifier (.routineName form)
  let _ ← expect .leftParen (.routineParams form)
  let params ← listUpTo .parameters .rightParen fuel (expect .identifier .parameterName)
  let _ ← expect .rightParen .parametersEnd
  checkParams form params
  let _ ← expect .leftBrace (.routineBody form)
  let body ← block grammar fuel { context with inLoop := false }
  return ⟨name, params, body⟩

/-! ## Declarations -/

/-- The rest of a variable declaration: an initial value, if there is one, and the semicolon. -/
def varRest (context : Context) : Parser (Token × Option Tree) := do
  let name ← expect .identifier .variableName
  let value ←
    match ← accept? [.equal] with
    | some _ => some <$> expression context.inClass
    | none => pure none
  let _ ← expect .semicolon .declarationEnd
  return (name, value)

/-- The groups of routines in a class body. -/
inductive Group where
  | methods
  | statics
  | getters
  | setters
deriving DecidableEq

/-- A routine of a class body, with the group it belongs to. -/
def member (grammar : Grammar) (fuel : Nat) (context : Context) :
    Parser (Group × Routine Item) := do
  match ← accept? [.staticWord, .getWord, .setWord] with
  | none => return (.methods, ← routine grammar fuel context .method)
  | some word =>
    match word.kind with
    | .staticWord => return (.statics, ← routine grammar fuel context .method)
    | .getWord => return (.getters, ← routine grammar fuel context .getter)
    | _ => return (.setters, ← routine grammar fuel context .setter)

/-- The routines up to the end of a class body. -/
def members (grammar : Grammar) (context : Context) (bound : Nat) :
    Nat → Parser (List (Group × Routine Item))
  | 0 => return []
  | fuel + 1 => do
    if ← blockOver then return []
    let first ← member grammar bound context
    return first :: (← members grammar context bound fuel)

/-- The members of one group, in order. -/
def ofGroup {α : Type} (group : Group) (all : List (Group × α)) : List α :=
  (all.filter (·.1 = group)).map (·.2)

/-- A class from its name on. -/
def classRest (grammar : Grammar) (fuel : Nat) (context : Context) : Parser Item := do
  let context := { context with inClass := true }
  let name ← expect .identifier .className
  let superclass ←
    match ← accept? [.lesserMinus] with
    | some _ => (some ∘ unresolved) <$> expect .identifier .superclassName
    | none => pure none
  let _ ← expect .leftBrace .classBody
  let all ← members grammar context fuel fuel
  let _ ← expect .rightBrace .classEnd
  return .classDecl name superclass
    (ofGroup .methods all) (ofGroup .statics all) (ofGroup .getters all) (ofGroup .setters all)

/-! ## Statements -/

/-- A condition in parentheses. -/
def condition (opening : Expected) (context : Context) : Parser Tree := do
  let _ ← expect .leftParen opening
  let e ← expression context.inClass
  let _ ← expect .rightParen .conditionEnd
  return e

def branchRest (grammar : Grammar) (context : Context) : Parser Item := do
  let test ← condition .ifCondition context
  let yes ← grammar.statement context
  match ← accept? [.elseWord] with
  | some _ => return .branch test yes (some (← grammar.statement context))
  | none => return .branch test yes none

def loopRest (grammar : Grammar) (context : Context) : Parser Item := do
  let test ← condition .whileCondition context
  return .loop test (← grammar.statement { context with inLoop := true })

/-- An expression and the semicolon after it. -/
def valueRest (context : Context) : Parser Tree := do
  let e ← expression context.inClass
  let _ ← expect .semicolon .valueEnd
  return e

/-- The first clause of a `for` loop, with its semicolon. -/
def forStart (context : Context) : Parser (Option (ForStart Unit)) := do
  match ← accept? [.semicolon, .varWord] with
  | none => return some (.expr (← valueRest context))
  | some t =>
    if t.kind = .semicolon then return none
    let (name, value) ← varRest context
    return some (.var name value)

/-- An expression, unless a token of that kind comes next. -/
def expressionUnless (close : Kind) (context : Context) : Parser (Option Tree) := do
  if ← nextIs close then return none
  return some (← expression context.inClass)

/-- A `for` loop after its keyword; without a condition it goes on for ever. -/
def forRest (grammar : Grammar) (context : Context) : Parser Item := do
  let _ ← expect .leftParen .forClauses
  let start ← forStart context
  let test ← expressionUnless .semicolon context
  let _ ← expect .semicolon .loopConditionEnd
  let after ← expressionUnless .rightParen context
  let _ ← expect .rightParen .forClausesEnd
  let body ← grammar.statement { context with inLoop := true }
  return .forLoop start (test.getD (.literal (.bool true))) after body

/-- An `exit` statement after its keyword; without a value the exit code is zero. -/
def exitRest (keyword : Token) (context : Context) : Parser Item := do
  match ← accept? [.semicolon] with
  | some _ => return .exit keyword (.literal (.number (Double.ofNat 0)))
  | none => return .exit keyword (← valueRest context)

def stepRest (word : Token) : Parser Item := do
  let name ← expect .identifier (.steppedName (directionOf word))
  let _ ← expect .semicolon .steppedNameEnd
  return .step (directionOf word) (unresolved name)

def returnRest (keyword : Token) (context : Context) : Parser Item := do
  let value ← expressionUnless .semicolon context
  let _ ← expect .semicolon .returnEnd
  return .giveBack keyword value

def jumpRest (keyword : Token) (jump : Jump) (context : Context) : Parser Item := do
  if context.inLoop then
    let _ ← expect .semicolon (.jumpEnd jump)
    return .jump jump keyword
  else fail (some keyword) (.jumpOutsideLoop jump)

/-- The kinds of token that open a statement of their own. -/
def statementKinds : List Kind :=
  [.ifWord, .whileWord, .forWord, .exitWord, .incWord, .decWord, .returnWord, .breakWord,
   .continueWord, .leftBrace]

def statement (grammar : Grammar) (fuel : Nat) (context : Context) : Parser Item := do
  match ← accept? statementKinds with
  | none => return .expr (← valueRest context)
  | some t =>
    match t.kind with
    | .ifWord => branchRest grammar context
    | .whileWord => loopRest grammar context
    | .forWord => forRest grammar context
    | .exitWord => exitRest t context
    | .returnWord => returnRest t context
    | .breakWord => jumpRest t .breakLoop context
    | .continueWord => jumpRest t .continueLoop context
    | .leftBrace => return .block (← block grammar fuel context)
    | _ => stepRest t

/-- A declaration or a statement. -/
def declarationOrStatement (grammar : Grammar) (fuel : Nat) (context : Context) :
    Parser Item := do
  match ← accept? [.classWord, .subWord, .varWord] with
  | none => statement grammar fuel context
  | some t =>
    match t.kind with
    | .classWord => classRest grammar fuel context
    | .subWord => return .routine (← routine grammar fuel context .subroutine)
    | _ =>
      let (name, value) ← varRest context
      return .var name value

/-! ## Recovery -/

/-- The kinds of token at which reading goes on after an error. -/
def startKinds : List Kind :=
  [.classWord, .subWord, .varWord, .forWord, .ifWord, .whileWord, .returnWord]

/-- What is left once `last` has been passed over: up to a semicolon or the start of a statement. -/
def resumeAfter (last : Token) : List Token → List Token
  | [] => []
  | t :: rest =>
    if last.kind = .semicolon ∨ t.kind ∈ startKinds then t :: rest else resumeAfter t rest

/-- What is left after an error: at least one token is passed over. -/
def resume : List Token → List Token
  | [] => []
  | t :: rest => resumeAfter t rest

/-- A declaration or a statement; after an error it is dropped and reading resumes. -/
def declaration (grammar : Grammar) (fuel : Nat) (context : Context) : Parser (Option Item) :=
  fun c =>
    match declarationOrStatement grammar fuel context c with
    | .ok item next => .ok (some item) next
    | .error _ next => .ok none { next with rest := resume next.rest }

mutual

/-- The grammar of statements with a bound on how often it is entered again. -/
def statementAt : Nat → Context → Parser Item
  | 0, _ => throw .syntaxError
  | fuel + 1, context => statement ⟨statementAt fuel, declarationAt fuel⟩ fuel context

/-- Declarations with a bound on how often the grammar is entered again. -/
def declarationAt : Nat → Context → Parser (Option Item)
  | 0, _ => throw .syntaxError
  | fuel + 1, context => declaration ⟨statementAt fuel, declarationAt fuel⟩ fuel context

end

/-- Outside of every loop and every class. -/
def topLevel : Context := ⟨false, false⟩

/-- The declarations up to the end of the script. -/
def program : Nat → Parser (List Item)
  | 0 => return []
  | fuel + 1 => do
    if ← atEnd then return []
    match ← declarationAt (fuel + 1) topLevel with
    | some item => return item :: (← program fuel)
    | none => program fuel

end Parser

/-- A parsed script: the statements that were read, and what was wrong with the others. -/
structure Parsed where
  program : Program Unit
  reports : List Diagnostic

/-- Parses tokens that end on a line; `reports` are the complaints made before. -/
def Parsed.ofTokens (tokens : List Token) (endLine : Nat) (reports : List Diagnostic) : Parsed :=
  match Parser.program (tokens.length + 1) ⟨tokens, endLine, reports⟩ with
  | .ok program c => ⟨program, c.reports⟩
  | .error _ c => ⟨[], c.reports⟩

/-- Scans and parses a source text. -/
def Parsed.ofSource (source : String) : Parsed :=
  let scan := Scan.ofSource source
  .ofTokens scan.tokens scan.endLine scan.faults

end KScript

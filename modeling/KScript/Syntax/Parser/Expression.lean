import KScript.Number.Double
import KScript.Syntax.Cursor

/-!
# The grammar of expressions

From loosest to tightest: assignment, `or`, `and`, `? :`, equality, comparison, sums, products,
powers, unary operators, calls and properties, primaries.  All operators of two operands lean to the
left, `^` too; assignment leans to the right.

The grammar enters itself again only at the three levels of `Entry`, and each time at least one token
has been read.  So one more than the number of tokens left bounds both the depth of re-entry and every
repetition, and with that much fuel (`Parser.expression`) a parser never runs out of it.
-/

namespace KScript.Parser

/-- The expressions that the parser builds. -/
abbrev Tree := Expr Unit

/-- The levels at which the grammar enters itself again. -/
inductive Entry where
  | expression
  | disjunction
  | unary
deriving DecidableEq

/-- Reads on at a level of operators that lean to the left. -/
def leftRest (operand : Parser Tree) (kinds : List Kind) (join : Tree → Token → Tree → Tree) :
    Nat → Tree → Parser Tree
  | 0, left => return left
  | fuel + 1, left => do
    match ← accept? kinds with
    | some op => leftRest operand kinds join fuel (join left op (← operand))
    | none => return left

/-- A level of operators that lean to the left. -/
def leftLevel (fuel : Nat) (kinds : List Kind) (join : Tree → Token → Tree → Tree)
    (operand : Parser Tree) : Parser Tree := do
  leftRest operand kinds join fuel (← operand)

/-! ## Primaries and what follows them -/

/-- A reference that is not resolved yet. -/
def unresolved (name : Token) : Reference Unit := ⟨name, ()⟩

/-- A primary expression and its last token. -/
def primary (enter : Entry → Parser Tree) (fuel : Nat) : Parser (Tree × Token) := do
  let some t ← peek? | missing .expression
  match t.kind with
  | .falseWord => do
    advance
    return (.literal (.bool false), t)
  | .trueWord => do
    advance
    return (.literal (.bool true), t)
  | .zilchWord => do
    advance
    return (.literal .zilch, t)
  | .infWord => do
    advance
    return (.literal (.number Double.infinity), t)
  | .number | .string => do
    advance
    return (.literal (t.literal.getD .zilch), t)
  | .leftSquare => do
    advance
    let items ← listUpTo .items .rightSquare fuel (enter .disjunction)
    let close ← expect .rightSquare .arrayEnd
    return (.array items, close)
  | .superWord => do
    advance
    let _ ← expect .dot .superDot
    let method ← expect .identifier .superMethod
    return (.inherited (unresolved t) method, method)
  | .thisWord => do
    advance
    return (.receiver (unresolved t), t)
  | .identifier => do
    advance
    return (.variable (unresolved t), t)
  | .leftParen => do
    advance
    let inner ← enter .expression
    let close ← expect .rightParen .groupEnd
    return (.grouping inner, close)
  | _ => missing .expression

/-- The direction of a counting word. -/
def directionOf (word : Token) : Direction := if word.kind = .incWord then .up else .down

/-- A primary expression, or `inc` or `dec` in front of one, which has to be a variable. -/
def stepped (enter : Entry → Parser Tree) (fuel : Nat) : Parser Tree := do
  match ← accept? [.incWord, .decWord] with
  | none => return (← primary enter fuel).1
  | some word =>
    match ← primary enter fuel with
    | (.variable ref, _) => return .step (directionOf word) ref
    | (target, last) =>
      report (some last) .stepTarget
      return target

/-- Reads on with calls and properties. -/
def suffixes (enter : Entry → Parser Tree) (inside : Bool) (bound : Nat) :
    Nat → Tree → Parser Tree
  | 0, e => return e
  | fuel + 1, e => do
    match ← accept? [.leftParen, .dot] with
    | none => return e
    | some opener =>
      if opener.kind = .leftParen then
        let args ← listUpTo .arguments .rightParen bound (enter .expression)
        let paren ← expect .rightParen .argumentsEnd
        suffixes enter inside bound fuel (.call e paren args)
      else
        let name ← expect .identifier .propertyName
        suffixes enter inside bound fuel (.get e name inside)

/-! ## The ladder of operators -/

def unaryLevel (enter : Entry → Parser Tree) (inside : Bool) (fuel : Nat) : Parser Tree := do
  match ← accept? [.bang, .minus] with
  | some op => return .unary op (← enter .unary)
  | none => suffixes enter inside fuel fuel (← stepped enter fuel)

/-- Powers, products, sums, comparisons and equality, each level built on the one before it. -/
def equalityLevel (enter : Entry → Parser Tree) (inside : Bool) (fuel : Nat) : Parser Tree :=
  leftLevel fuel [.bangEqual, .equalEqual] .binary <|
  leftLevel fuel [.greater, .greaterEqual, .lesser, .lesserEqual] .binary <|
  leftLevel fuel [.plus, .minus] .binary <|
  leftLevel fuel [.slash, .star, .modWord, .divWord] .binary <|
  leftLevel fuel [.caret] .binary <|
  unaryLevel enter inside fuel

def conditionalLevel (enter : Entry → Parser Tree) (inside : Bool) (fuel : Nat) :
    Parser Tree := do
  let condition ← equalityLevel enter inside fuel
  match ← accept? [.question] with
  | none => return condition
  | some _ =>
    let yes ← enter .expression
    let _ ← expect .colon .expression
    let no ← enter .expression
    return .conditional condition yes no

def disjunctionLevel (enter : Entry → Parser Tree) (inside : Bool) (fuel : Nat) : Parser Tree :=
  leftLevel fuel [.orWord] .logical <|
  leftLevel fuel [.andWord] .logical <|
  conditionalLevel enter inside fuel

/-- The operator inside a compound assignment such as `+=`. -/
def compoundOperator : Kind → Kind × String
  | .plusEqual => (.plus, "+")
  | .minusEqual => (.minus, "-")
  | .starEqual => (.star, "*")
  | .slashEqual => (.slash, "/")
  | _ => (.caret, "^")

/-- The tokens that assign. -/
def assignmentKinds : List Kind :=
  [.equal, .plusEqual, .minusEqual, .starEqual, .slashEqual, .caretEqual]

/--
What assigning `value` to `target` means, if the target can be assigned to: `x op= v` stands for
`x = x op v`, and a property takes plain `=` only.
-/
def assignment? (inside : Bool) (target : Tree) (equals : Token) (value : Tree) : Option Tree :=
  match target, equals.kind with
  | .variable ref, .equal => some (.assign ref value)
  | .variable ref, kind =>
    let op := compoundOperator kind
    some (.assign ref (.binary (.variable ref) ⟨op.1, op.2, none, equals.line⟩ value))
  | .get object name _, .equal => some (.set object name value inside)
  | _, _ => none

def assignmentLevel (enter : Entry → Parser Tree) (inside : Bool) (fuel : Nat) :
    Parser Tree := do
  let target ← disjunctionLevel enter inside fuel
  match ← accept? assignmentKinds with
  | none => return target
  | some equals =>
    let value ← enter .expression
    match assignment? inside target equals value with
    | some e => return e
    | none =>
      report (some equals) .assignmentTarget
      return target

/-- The grammar with a bound on how often it is entered again. -/
def expressionAt (inside : Bool) : Nat → Entry → Parser Tree
  | 0, _ => throw .syntaxError
  | fuel + 1, .expression => assignmentLevel (expressionAt inside fuel) inside fuel
  | fuel + 1, .disjunction => disjunctionLevel (expressionAt inside fuel) inside fuel
  | fuel + 1, .unary => unaryLevel (expressionAt inside fuel) inside fuel

/-- Reads an expression; `inside` says whether it is written in a class body. -/
def expression (inside : Bool) : Parser Tree := fun c =>
  expressionAt inside (c.rest.length + 1) .expression c

end KScript.Parser

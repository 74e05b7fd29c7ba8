import KScript.Eval.Class
import KScript.Eval.Operator
import KScript.Eval.Property
import KScript.Eval.Variable

/-!
# Evaluation

What every form of expression and statement does, given an evaluator for its parts, and the evaluator
itself: `evalAt` and `execAt` carry out as many levels as their fuel allows.
-/

namespace KScript

namespace Interp

/-- Whether the value of the left operand settles an `and` or an `or`. -/
def settles (op : Token) (left : Value) : Bool :=
  if op.kind = .orWord then left.isTruthy else !left.isTruthy

/-- Evaluates an expression, given an evaluator for its parts. -/
def evalStep (i : Interp) (env : Env) : Expr Depth → Run Value
  | .literal value => return .scalar value
  | .array items => do
    let values ← i.evalAll env items
    return .array (← Run.newIdent) values
  | .grouping inner => i.eval env inner
  | .unary op operand => do
    let value ← i.eval env operand
    Run.orFail op.line (Operator.unary op value)
  | .binary left op right => do
    let a ← i.eval env left
    let b ← i.eval env right
    Run.orFail op.line (Operator.binary op a b)
  | .logical left op right => do
    let value ← i.eval env left
    if settles op value then return value else i.eval env right
  | .conditional condition yes no => do
    if ← i.test env condition then i.eval env yes else i.eval env no
  | .variable ref => ref.read env
  | .assign ref value => do
    let v ← i.eval env value
    ref.write env v
    return v
  | .step direction ref => ref.step direction .expression env
  | .call callee paren args => do
    let target ← i.eval env callee
    let values ← i.evalAll env args
    i.call target values paren.line
  | .get object name inside => do
    let target ← i.eval env object
    i.getProperty target name inside
  | .set object name value inside => do
    match ← i.eval env object with
    | .object target => do
      let v ← i.eval env value
      i.writeProperty target name v inside
      return v
    | _ => Run.fail name.line .fieldOfOther
  | .receiver ref => ref.read env
  | .inherited ref method => ref.inherited method env

/-- Leaves the script with the exit code that a value stands for. -/
def exitWith (line : Nat) : Value → Run Completion
  | .number x =>
    match Double.toInt? x with
    | some code => do
      Run.note fun _ => "exit " ++ toString code
      throw (.exit code)
    | none => Run.fail line .exitNotInteger
  | _ => Run.fail line .exitNotNumber

/-- Carries out the last clause of a `for` loop. -/
def advance (i : Interp) (env : Env) (after : Option (Expr Depth)) : Run Unit := do
  let _ ← i.evalOption env after

/-- Carries out the first clause of a `for` loop. -/
def begin (i : Interp) (env : Env) : Option (ForStart Depth) → Run Unit
  | none => return
  | some start => do
    let _ ← i.exec env start.toStmt

/-- Executes a statement, given an evaluator for its parts. -/
def execStep (i : Interp) (env : Env) : Stmt Depth → Run Completion
  | .expr e => do
    let _ ← i.eval env e
    return .normal
  | .echo e => do
    let v ← i.eval env e
    Run.write (v.display ++ "\n")
    return .normal
  | .var name value => do
    let v ← i.evalOption env value
    Run.define env name.lexeme v
    return .normal
  | .block body => do
    let address ← Run.newFrame .empty
    i.execAll (address :: env) body
  | .exit keyword code => do
    exitWith keyword.line (← i.eval env code)
  | .branch condition yes no => do
    if ← i.test env condition then i.exec env yes
    else
      match no with
      | some s => i.exec env s
      | none => return .normal
  | .loop condition body =>
    Run.loop (i.test env condition) (i.exec env body) (pure ()) i.fuel
  | .forLoop start condition after body => do
    let address ← Run.newFrame .empty
    let inner := address :: env
    i.begin inner start
    Run.loop (i.test inner condition) (i.exec inner body) (i.advance inner after) i.fuel
  | .step direction ref => do
    let _ ← ref.step direction .statement env
    return .normal
  | .jump .breakLoop _ => return .broke
  | .jump .continueLoop _ => return .continued
  | .routine decl => do
    let closure : Closure := ⟨← Run.newIdent, decl, env, false⟩
    Run.define env decl.name.lexeme (.routine closure)
    return .normal
  | .giveBack _ value => do
    return .returned (← i.evalOption env value)
  | .classDecl name superclass methods statics getters setters => do
    i.declareClass env name superclass methods statics getters setters
    return .normal

end Interp

mutual

/-- Evaluates an expression with at most `fuel` levels. -/
def evalAt : Nat → Env → Expr Depth → Run Value
  | 0, _, _ => throw .exhausted
  | fuel + 1, env, e => Interp.evalStep ⟨fuel, evalAt fuel, execAt fuel⟩ env e

/-- Executes a statement with at most `fuel` levels. -/
def execAt : Nat → Env → Stmt Depth → Run Completion
  | 0, _, _ => throw .exhausted
  | fuel + 1, env, s => Interp.execStep ⟨fuel, evalAt fuel, execAt fuel⟩ env s

end

/-- The evaluator of so many levels. -/
def interpAt (fuel : Nat) : Interp := ⟨fuel, evalAt fuel, execAt fuel⟩

/-- Executes the statements of a program one after the other at the top level. -/
def Program.run (fuel : Nat) : Program Depth → Run Unit
  | [] => return
  | s :: rest => do
    let _ ← execAt fuel Machine.globalEnv s
    Program.run fuel rest

end KScript

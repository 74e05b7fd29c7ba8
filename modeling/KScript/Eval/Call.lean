import KScript.Eval.Interp
import KScript.Native
import KScript.Scope

/-!
# Calls

A call is listed while it runs, so that a failure can tell which calls were under way: it is listed
once its arguments are counted and struck off when it comes back.  Accessors and constructors that run
as part of something else are not listed.
-/

namespace KScript

/-- How many calls can be under way at once. -/
def callLimit : Nat := 128

/-- A method with its receiver: the same routine inside a new frame that binds the receiver. -/
def Closure.bind (c : Closure) (receiver : Object) : Run Closure := do
  let address ← Run.newFrame (.singleton Scope.thisName (.object receiver))
  return { c with ident := ← Run.newIdent, env := address :: c.env }

namespace Interp

/-- Runs the body of a routine in a new frame that binds its parameters. -/
def invoke (i : Interp) (c : Closure) (args : List Value) : Run Value := do
  let address ← Run.newFrame (.ofList ((c.decl.params.map (·.lexeme)).zip args))
  let completion ← i.execAll (address :: c.env) c.decl.body
  if c.isConstructor then
    Run.orCrash ((← get).frames.getAt c.env 0 Scope.thisName)
  else
    match completion with
    | .returned v => return v
    | _ => return .zilch

/-- Runs a method on a receiver. -/
def invokeOn (i : Interp) (c : Closure) (receiver : Object) (args : List Value) : Run Value := do
  i.invoke (← c.bind receiver) args

/-- Makes an object, and makes it ready if its class says how. -/
def construct (i : Interp) (cls : ClassValue) (args : List Value) : Run Value := do
  let object ← Run.newObject cls
  match cls.constructor? with
  | none => return .object object
  | some c => do
    let _ ← i.invokeOn c object args
    return .object object

/-- Runs a native routine; its failures are on the line of the call. -/
def invokeNative (n : Native) (args : List Value) (line : Nat) : Run Value := do
  let result ← modifyGet fun m =>
    let applied := n.apply args m.console
    (applied.1, { m with console := applied.2 })
  match result with
  | .ok v => return v
  | .error (.failure cause) => Run.fail line cause
  | .error (.crash c) => throw (.crash c)

/-- Runs what is called. -/
def invokeCallable (i : Interp) (callee : Callable) (args : List Value) (line : Nat) : Run Value :=
  match callee with
  | .native n => invokeNative n args line
  | .routine c => i.invoke c args
  | .classValue c => i.construct c args

/-- Whether a call takes that many arguments. -/
def takes (arity : Option Nat) (count : Nat) : Bool :=
  match arity with
  | none => true
  | some n => n == count

/-- Calls a value; `line` is the line on which the call ends. -/
def call (i : Interp) (callee : Value) (args : List Value) (line : Nat) : Run Value := do
  match Callable.ofValue? callee with
  | none => Run.fail line .notCallable
  | some callable =>
    if takes callable.arity args.length then
      let name := callable.name
      Run.pushCall ⟨name, args⟩
      Run.note fun m => "call " ++ name ++ " " ++ Value.detailedList m.fieldNames args
      if callLimit < (← get).calls.length then
        Run.fail line .stackOverflow
      let result ← i.invokeCallable callable args line
      Run.popCall
      Run.note fun m => "return " ++ name ++ " " ++ result.result m.fieldNames
      return result
    else Run.fail line (.wrongCount (callable.arity.getD 0) args.length)

end Interp

end KScript

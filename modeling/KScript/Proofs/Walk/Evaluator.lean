import KScript.Proofs.Scope.Places
import KScript.Session

/-!
# Walking through a program

A second evaluator, which makes three things part of its state or of its result that the plain one leaves
to its reader:

- the environment in force is a register.  To enter a block, the body of a routine or of a class is to
  change the register, and whatever happens inside, it is put back on the way out (`Walk.inside`);
- a signal that cuts the walk short collects, on its way out, the calls that it cuts short
  (`Walk.opening`).  Only calls do so, not the accessors and constructors that run as part of something
  else;
- footprints stay behind: every phrase that is reached, and every `.` that has itself written a field.

On the machine it does what the plain evaluator does.
-/

namespace KScript

/-- What a walk leaves behind. -/
inductive Footprint where
  /-- A phrase has been reached. -/
  | reached (phrase : Phrase Depth)
  /-- An expression has written a field of an object. -/
  | wrote (node : Expr Depth) (object : Object)

/-- The state of a walk. -/
structure Scene where
  /-- The environment in force. -/
  env : Env
  machine : Machine
  /-- The footprints so far, latest first. -/
  past : List Footprint

/-- How a walk is cut short. -/
structure Halt where
  signal : Signal
  /-- The calls that were cut short, innermost first. -/
  opened : List CallRecord

/-- Walks that can be cut short. -/
abbrev Walk := EStateM Halt Scene

namespace Walk

variable {α : Type}

/-- An operation of the machine in the environment in force. -/
def act (f : Env → Run α) : Walk α := fun s =>
  match f s.env s.machine with
  | .ok a m => .ok a { s with machine := m }
  | .error signal m => .error ⟨signal, []⟩ { s with machine := m }

/-- Leaves a footprint. -/
def leave (f : Footprint) : Walk Unit := modify fun s => { s with past := f :: s.past }

/-- A walk inside another environment; at its end, whatever it is, the old one is put back. -/
def inside (env : Env) (x : Walk α) : Walk α := do
  let outer := (← get).env
  modify fun s => { s with env }
  try x
  finally modify fun s => { s with env := outer }

/-- A walk inside a call. -/
def opening (call : CallRecord) (x : Walk α) : Walk α :=
  try x
  catch halt => throw { halt with opened := halt.opened ++ [call] }

/-- A loop, as for the plain evaluator. -/
def loop (test : Walk Bool) (body : Walk Completion) (after : Walk Unit) : Nat → Walk Completion
  | 0 => act fun _ => throw .exhausted
  | fuel + 1 => do
    if ← test then
      match ← body with
      | .broke => return .normal
      | .returned v => return .returned v
      | _ => do
        after
        loop test body after fuel
    else return .normal

end Walk

/-! ## Parts of the plain evaluator that only use the machine -/

/-- What the completion of its body makes a routine give back. -/
def Closure.result (c : Closure) (completion : Completion) : Run Value := do
  if c.isConstructor then
    Run.orCrash ((← get).frames.getAt c.env 0 Scope.thisName)
  else
    match completion with
    | .returned v => return v
    | _ => return .zilch

/-- A call that is listed begins, unless too many are under way. -/
def Callable.begin (callable : Callable) (args : List Value) (line : Nat) : Run Unit := do
  Run.note fun m => "call " ++ callable.name ++ " " ++ Value.detailedList m.fieldNames args
  if callLimit < (← get).calls.length then
    Run.fail line .stackOverflow

/-- What a class declaration brings along, in the environment of its routines. -/
def layer (name : Token) (methods statics getters setters : List (Routine (Stmt Depth)))
    (env : Env) : Run Layer := do
  let methods ← closures env (· == constructorName) methods .empty
  let statics ← closures env (fun _ => false) statics .empty
  let getters ← closures env (fun _ => false) getters .empty
  let setters ← closures env (fun _ => false) setters .empty
  return ⟨← Run.newIdent, name.lexeme, methods, statics, getters, setters⟩

/-- Binds the name of a class that is ready. -/
def bindClass (name : Token) (cls : ClassValue) (env : Env) : Run Unit := do
  Run.note fun m => "class " ++ (Value.classValue cls).detailed m.fieldNames
  Run.assign env name (.classValue cls)

/-- Binds the name of a routine. -/
def bindRoutine (decl : Routine (Stmt Depth)) (env : Env) : Run Unit := do
  let closure : Closure := ⟨← Run.newIdent, decl, env, false⟩
  Run.define env decl.name.lexeme (.routine closure)

/-! ## Walking -/

/-- How to walk through the parts of a phrase. -/
structure Walker where
  /-- A bound on the number of turns of a loop. -/
  fuel : Nat
  eval : Expr Depth → Walk Value
  exec : Stmt Depth → Walk Completion

namespace Walker

open Walk

variable (w : Walker)

def evalAll : List (Expr Depth) → Walk (List Value)
  | [] => return []
  | e :: rest => do
    let v ← w.eval e
    let vs ← evalAll rest
    return v :: vs

def test (e : Expr Depth) : Walk Bool := do
  return (← w.eval e).isTruthy

def evalOption : Option (Expr Depth) → Walk Value
  | none => return .zilch
  | some e => w.eval e

def execAll : List (Stmt Depth) → Walk Completion
  | [] => return .normal
  | s :: rest => do
    match ← w.exec s with
    | .normal => execAll rest
    | completion => return completion

/-- The body of a routine is walked through in a new frame on top of its own environment. -/
def invoke (c : Closure) (args : List Value) : Walk Value := do
  let address ← act fun _ => Run.newFrame (.ofList ((c.decl.params.map (·.lexeme)).zip args))
  let completion ← inside (address :: c.env) (w.execAll c.decl.body)
  act fun _ => c.result completion

def invokeOn (c : Closure) (receiver : Object) (args : List Value) : Walk Value := do
  w.invoke (← act fun _ => c.bind receiver) args

def construct (cls : ClassValue) (args : List Value) : Walk Value := do
  let object ← act fun _ => Run.newObject cls
  match cls.constructor? with
  | none => return .object object
  | some c => do
    let _ ← w.invokeOn c object args
    return .object object

def invokeCallable (callee : Callable) (args : List Value) (line : Nat) : Walk Value :=
  match callee with
  | .native n => act fun _ => Interp.invokeNative n args line
  | .routine c => w.invoke c args
  | .classValue c => w.construct c args

/-- A call is listed before it is opened and struck off after it has come back. -/
def call (callee : Value) (args : List Value) (line : Nat) : Walk Value :=
  match Callable.ofValue? callee with
  | none => act fun _ => Run.fail line .notCallable
  | some callable =>
    if Interp.takes callable.arity args.length then do
      let record : CallRecord := ⟨callable.name, args⟩
      act fun _ => Run.pushCall record
      let result ← opening record do
        act fun _ => callable.begin args line
        w.invokeCallable callable args line
      act fun _ => Run.popCall
      act fun _ => Run.note fun m => "return " ++ callable.name ++ " " ++ result.result m.fieldNames
      return result
    else act fun _ => Run.fail line (.wrongCount (callable.arity.getD 0) args.length)

def readProperty (object : Object) (name : Token) (inside : Bool) : Walk Value :=
  if inside then act fun _ => object.read name
  else
    match object.cls.getter? name.lexeme, object.cls.setter? name.lexeme with
    | some getter, _ => w.invokeOn getter object []
    | none, some _ => act fun _ => Run.fail name.line (.setterOnly name.lexeme)
    | none, none => act fun _ => object.read name

def getProperty (target : Value) (name : Token) (inside : Bool) : Walk Value :=
  match target with
  | .object object => w.readProperty object name inside
  | .classValue cls =>
    match cls.static? name.lexeme with
    | some method => return .routine method
    | none => act fun _ => Run.fail name.line (.undefinedStatic name.lexeme)
  | _ => act fun _ => Run.fail name.line .propertyOfOther

/-- A field is written by the expression itself. -/
def store (node : Expr Depth) (object : Object) (name : Token) (value : Value) (inside : Bool) :
    Walk Unit := do
  act fun _ => object.write name value inside
  leave (.wrote node object)

def writeProperty (node : Expr Depth) (object : Object) (name : Token) (value : Value)
    (inside : Bool) : Walk Unit :=
  if inside then store node object name value inside
  else
    match object.cls.setter? name.lexeme, object.cls.getter? name.lexeme with
    | some setter, _ => do
      let _ ← w.invokeOn setter object [value]
    | none, some _ => act fun _ => Run.fail name.line (.getterOnly name.lexeme)
    | none, none => store node object name value inside

/-- Walks through an expression. -/
def evalStep : Expr Depth → Walk Value
  | .literal value => return .scalar value
  | .array items => do
    let values ← w.evalAll items
    return .array (← act fun _ => Run.newIdent) values
  | .grouping inner => w.eval inner
  | .unary op operand => do
    let value ← w.eval operand
    act fun _ => Run.orFail op.line (Operator.unary op value)
  | .binary left op right => do
    let a ← w.eval left
    let b ← w.eval right
    act fun _ => Run.orFail op.line (Operator.binary op a b)
  | .logical left op right => do
    let value ← w.eval left
    if Interp.settles op value then return value else w.eval right
  | .conditional condition yes no => do
    if ← w.test condition then w.eval yes else w.eval no
  | .variable ref => act ref.read
  | .assign ref value => do
    let v ← w.eval value
    act fun env => ref.write env v
    return v
  | .step direction ref => act (ref.step direction .expression)
  | .call callee paren args => do
    let target ← w.eval callee
    let values ← w.evalAll args
    w.call target values paren.line
  | .get object name inside => do
    let target ← w.eval object
    w.getProperty target name inside
  | .set object name value inside => do
    match ← w.eval object with
    | .object target => do
      let v ← w.eval value
      w.writeProperty (.set object name value inside) target name v inside
      return v
    | _ => act fun _ => Run.fail name.line .fieldOfOther
  | .receiver ref => act ref.read
  | .inherited ref method => act (ref.inherited method)

def superclass : Option (Reference Depth) → Walk (Option ClassValue)
  | none => return none
  | some ref => do
    match ← w.eval (.variable ref) with
    | .classValue cls => return some cls
    | _ => act fun _ => Run.fail ref.name.line .superclassNotClass

/-- The routines of a class are closed over the environment of the class. -/
def declareClass (name : Token) (superclass : Option (Reference Depth))
    (methods statics getters setters : List (Routine (Stmt Depth))) : Walk Unit := do
  act fun env => Run.define env name.lexeme .zilch
  let parent ← w.superclass superclass
  let inner ← act fun env => classEnv env parent
  let own ← inside inner (act (layer name methods statics getters setters))
  act (bindClass name ⟨own, (parent.map (·.lineage)).getD []⟩)

def advance (after : Option (Expr Depth)) : Walk Unit := do
  let _ ← w.evalOption after

def begin : Option (ForStart Depth) → Walk Unit
  | none => return
  | some start => do
    let _ ← w.exec start.toStmt

/-- A new frame on top of the environment in force. -/
def enter : Walk Env := do
  let address ← act fun _ => Run.newFrame .empty
  return address :: (← get).env

/-- Walks through a statement. -/
def execStep : Stmt Depth → Walk Completion
  | .expr e => do
    let _ ← w.eval e
    return .normal
  | .echo e => do
    let v ← w.eval e
    act fun _ => Run.write (v.display ++ "\n")
    return .normal
  | .var name value => do
    let v ← w.evalOption value
    act fun env => Run.define env name.lexeme v
    return .normal
  | .block body => do
    inside (← enter) (w.execAll body)
  | .exit keyword code => do
    let v ← w.eval code
    act fun _ => Interp.exitWith keyword.line v
  | .branch condition yes no => do
    if ← w.test condition then w.exec yes
    else
      match no with
      | some s => w.exec s
      | none => return .normal
  | .loop condition body => Walk.loop (w.test condition) (w.exec body) (pure ()) w.fuel
  | .forLoop start condition after body => do
    inside (← enter) do
      w.begin start
      Walk.loop (w.test condition) (w.exec body) (w.advance after) w.fuel
  | .step direction ref => do
    let _ ← act (ref.step direction .statement)
    return .normal
  | .jump .breakLoop _ => return .broke
  | .jump .continueLoop _ => return .continued
  | .routine decl => do
    act (bindRoutine decl)
    return .normal
  | .giveBack _ value => do
    return .returned (← w.evalOption value)
  | .classDecl name superclass methods statics getters setters => do
    w.declareClass name superclass methods statics getters setters
    return .normal

end Walker

namespace Walk

mutual

/-- Walks through an expression with at most `fuel` levels. -/
def evalAt : Nat → Expr Depth → Walk Value
  | 0, _ => act fun _ => throw .exhausted
  | fuel + 1, e => do
    leave (.reached (.expr e))
    Walker.evalStep ⟨fuel, evalAt fuel, execAt fuel⟩ e

/-- Walks through a statement with at most `fuel` levels. -/
def execAt : Nat → Stmt Depth → Walk Completion
  | 0, _ => act fun _ => throw .exhausted
  | fuel + 1, s => do
    leave (.reached (.stmt s))
    Walker.execStep ⟨fuel, evalAt fuel, execAt fuel⟩ s

end

/-- The walker of so many levels. -/
def walkerAt (fuel : Nat) : Walker := ⟨fuel, evalAt fuel, execAt fuel⟩

/-- Walks through the statements of a program. -/
def run (fuel : Nat) : Program Depth → Walk Unit
  | [] => return
  | s :: rest => do
    let _ ← execAt fuel s
    run fuel rest

/-! ## Sessions -/

/-- Walks through a script, from the environment that was left in force; the outcome of a failure tells the
calls that were cut short. -/
def runScript (s : Scene) (step : String × Bool) : Outcome × Scene :=
  match Session.prepare step.1 with
  | ([], program) =>
    match run Session.fuel (Session.echoed step.2 program) { s with machine := Session.ready s.machine } with
    | .ok _ t => (.success, t)
    | .error halt t => (Session.outcomeOf halt.opened halt.signal, t)
  | (reports, _) => (.rejected reports, s)

/-- Walks through scripts one after the other. -/
def runScripts (s : Scene) : List (String × Bool) → List Outcome × Scene
  | [] => ([], s)
  | step :: steps =>
    let (outcome, next) := runScript s step
    let (outcomes, last) := runScripts next steps
    (outcome :: outcomes, last)

end Walk

end KScript

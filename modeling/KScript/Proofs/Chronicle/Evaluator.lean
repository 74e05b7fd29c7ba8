import KScript.Proofs.Reach.Cells
import KScript.Proofs.Walk.Evaluator

/-!
# Keeping a chronicle

A second evaluator, which does on the machine what the plain one does and keeps a chronicle besides.  Every
event that makes a value with an identity of its own is entered with the value that it made:

- an array literal is evaluated;
- a routine or a class is declared;
- an object is constructed;
- a method is bound to its receiver;
- a session begins, with its native routines.

The other entries tell where values go: what is put into a cell under a name and what is got from there, what
a call takes in and what comes back, what every expression gives and how every statement ends.
-/

namespace KScript

/-- What makes a value with an identity of its own. -/
inductive Origin where
  /-- An array literal is evaluated. -/
  | array (items : List (Expr Depth))
  /-- A routine is declared, by itself or in a class. -/
  | routine (decl : Routine (Stmt Depth))
  /-- A class is declared. -/
  | classDecl (name : Token)
  /-- An object is constructed. -/
  | construction (cls : ClassValue)
  /-- A method is bound to its receiver. -/
  | binding (method : Closure) (receiver : Object)
  /-- A session begins that has the native routine. -/
  | builtIn (native : Native)

/-- What a chronicle tells. -/
inductive Chronicle.Entry where
  /-- An event has made the value. -/
  | made (origin : Origin) (product : Value)
  /-- The value was bound in a cell. -/
  | put (cell : Cell) (name : String) (v : Value)
  /-- The value was found in a cell. -/
  | got (cell : Cell) (name : String) (v : Value)
  /-- A value is called. -/
  | called (callee : Value) (args : List Value)
  /-- The call that was entered under that number has come back with the value. -/
  | came (since : Nat) (callee : Value) (v : Value)
  /-- The body of a routine begins; its parameters are bound. -/
  | entered (c : Closure) (args : List Value)
  /-- The body of a routine has ended; the routine gives the value back. -/
  | left (c : Closure) (v : Value)
  /-- The expression has that value. -/
  | gave (e : Expr Depth) (v : Value)
  /-- The statement has ended like that. -/
  | ran (s : Stmt Depth) (completion : Completion)

open Chronicle (Entry)

/-- The entries of the bindings of a new frame, the latest first. -/
def Chronicle.Entry.puts (address : Address) (bindings : List (String × Value)) : List Entry :=
  (bindings.map fun binding => .put (.frame address) binding.1 binding.2).reverse

/-- A machine and its chronicle, the latest entry first. -/
structure Annals where
  machine : Machine
  past : List Entry

/-- One entry more. -/
def Annals.add (s : Annals) (entry : Entry) : Annals := { s with past := entry :: s.past }

/-- Computations that keep a chronicle. -/
abbrev Chronicle := EStateM Signal Annals

namespace Chronicle

variable {α : Type}

/-- An operation of the machine that leaves no entry. -/
def act (x : Run α) : Chronicle α := fun s =>
  match x s.machine with
  | .ok a m => .ok a { s with machine := m }
  | .error signal m => .error signal { s with machine := m }

/-- Makes an entry. -/
def log (entry : Entry) : Chronicle Unit := modify (·.add entry)

/-- Makes an entry and tells its number. -/
def record (entry : Entry) : Chronicle Nat := modifyGet fun s => (s.past.length, s.add entry)

/-! ## Events -/

/-- An event, with what its number makes of it. -/
def event (origin : Origin) (product : Nat → Value) : Chronicle Nat := do
  let ident ← act Run.newIdent
  log (.made origin (product ident))
  return ident

/-- A new object without fields. -/
def newObject (cls : ClassValue) : Chronicle Object := do
  let object ← act (Run.newObject cls)
  log (.made (.construction cls) (.object object))
  return object

/-! ## Cells -/

/-- Binds a name in a cell. -/
def put (cell : Cell) (name : String) (v : Value) : Chronicle Unit := do
  act (modify fun m => m.put cell name v)
  log (.put cell name v)

/-- What a name is bound to in a cell, if it is. -/
def find? (cell : Cell) (name : String) : Chronicle (Option Value) := do
  match ((← get).machine.contents cell).find? name with
  | none => return none
  | some v => do
    log (.got cell name v)
    return some v

/-- A new frame with these bindings. -/
def newFrame (bindings : List (String × Value)) : Chronicle Address := do
  let address ← act (Run.newFrame (.ofList bindings))
  modify fun s => { s with past := Entry.puts address bindings ++ s.past }
  return address

def define (env : Env) (name : String) (v : Value) : Chronicle Unit :=
  match env with
  | [] => return
  | address :: _ => put (.frame address) name v

/-- Rebinds a name in the nearest frame that binds it. -/
def assign (env : Env) (name : Token) (v : Value) : Chronicle Unit := do
  match env with
  | [] => act (Run.fail name.line (.undefinedVariable name.lexeme))
  | address :: outer =>
    if ((← get).machine.frames.frame address).contains name.lexeme then
      put (.frame address) name.lexeme v
    else assign outer name v

/-- The value of a name in the frame that is `depth` steps out. -/
def getAt (env : Env) (depth : Nat) (name : String) : Chronicle Value :=
  match env[depth]? with
  | none => act (throw (.crash .offChain))
  | some address => do
    match ← find? (.frame address) name with
    | none => act (throw (.crash (.unbound name)))
    | some v => return v

/-! ## Variables -/

def readRef (ref : Reference Depth) (env : Env) : Chronicle Value :=
  match ref.bound with
  | some depth => getAt env depth ref.name.lexeme
  | none => do
    match ← find? (.frame Machine.globalAddress) ref.name.lexeme with
    | some v => return v
    | none => act (Run.fail ref.name.line (.undefinedVariable ref.name.lexeme))

def writeRef (ref : Reference Depth) (env : Env) (v : Value) : Chronicle Unit :=
  match ref.bound with
  | some depth =>
    match env[depth]? with
    | none => act (throw (.crash .offChain))
    | some address => put (.frame address) ref.name.lexeme v
  | none => do
    if ((← get).machine.frames.frame Machine.globalAddress).contains ref.name.lexeme then
      put (.frame Machine.globalAddress) ref.name.lexeme v
    else act (Run.fail ref.name.line (.undefinedVariable ref.name.lexeme))

def stepRef (ref : Reference Depth) (direction : Direction) (use : StepUse) (env : Env) :
    Chronicle Value := do
  match ← readRef ref env with
  | .number x =>
    writeRef ref env (.number (x + direction.delta))
    return .number x
  | _ => act (Run.fail ref.name.line (.steppedNotNumber direction use))

/-! ## Methods and fields -/

def bindMethod (c : Closure) (receiver : Object) : Chronicle Closure := do
  let address ← newFrame [(Scope.thisName, .object receiver)]
  let bound (ident : Nat) : Closure := { c with ident, env := address :: c.env }
  return bound (← event (.binding c receiver) fun ident => .routine (bound ident))

def readField (object : Object) (name : Token) : Chronicle Value := do
  match ← find? (.object object.ident) name.lexeme with
  | some v => return v
  | none =>
    match object.cls.method? name.lexeme with
    | some method => return .routine (← bindMethod method object)
    | none => act (Run.fail name.line (.undefinedProperty name.lexeme))

def writeField (object : Object) (name : Token) (v : Value) (inside : Bool) : Chronicle Unit := do
  if inside || ((← get).machine.fieldsOf object.ident).contains name.lexeme then
    put (.object object.ident) name.lexeme v
  else act (Run.fail name.line (.undefinedProperty name.lexeme))

def inherited (ref : Reference Depth) (method : Token) (env : Env) : Chronicle Value :=
  match ref.bound with
  | none => act (throw (.crash (.unbound Scope.superName)))
  | some depth => do
    let superclass ← getAt env depth Scope.superName
    let receiver ← getAt env (depth - 1) Scope.thisName
    match superclass, receiver with
    | .classValue cls, .object object =>
      match cls.method? method.lexeme with
      | some found => return .routine (← bindMethod found object)
      | none => act (Run.fail method.line (.undefinedProperty method.lexeme))
    | _, _ => act (throw (.crash (.unbound Scope.superName)))

/-- What the completion of its body makes a routine give back. -/
def result (c : Closure) (completion : Completion) : Chronicle Value :=
  if c.isConstructor then getAt c.env 0 Scope.thisName
  else
    match completion with
    | .returned v => return v
    | _ => return .zilch

/-! ## Classes -/

def classEnv (env : Env) : Option ClassValue → Chronicle Env
  | none => return env
  | some superclass => do
    let address ← newFrame [(Scope.superName, .classValue superclass)]
    return address :: env

def closures (env : Env) (isConstructor : String → Bool) :
    List (Routine (Stmt Depth)) → Table Closure → Chronicle (Table Closure)
  | [], table => return table
  | decl :: rest, table => do
    let name := decl.name.lexeme
    let closure (ident : Nat) : Closure := ⟨ident, decl, env, isConstructor name⟩
    let ident ← event (.routine decl) fun ident => .routine (closure ident)
    closures env isConstructor rest (table.insert name (closure ident))

/-- A loop, as for the plain evaluator. -/
def loop (test : Chronicle Bool) (body : Chronicle Completion) (after : Chronicle Unit) :
    Nat → Chronicle Completion
  | 0 => act (throw .exhausted)
  | fuel + 1 => do
    if ← test then
      match ← body with
      | .broke => return .normal
      | .returned v => return .returned v
      | _ => do
        after
        loop test body after fuel
    else return .normal

end Chronicle

/-! ## Evaluation -/

/-- An evaluator for the parts of a phrase that keeps a chronicle. -/
structure Scribe where
  /-- A bound on the number of turns of a loop. -/
  fuel : Nat
  eval : Env → Expr Depth → Chronicle Value
  exec : Env → Stmt Depth → Chronicle Completion

namespace Scribe

open Chronicle

variable (k : Scribe)

def evalAll (env : Env) : List (Expr Depth) → Chronicle (List Value)
  | [] => return []
  | e :: rest => do
    let v ← k.eval env e
    let vs ← evalAll env rest
    return v :: vs

def test (env : Env) (e : Expr Depth) : Chronicle Bool := do
  return (← k.eval env e).isTruthy

def evalOption (env : Env) : Option (Expr Depth) → Chronicle Value
  | none => return .zilch
  | some e => k.eval env e

def execAll (env : Env) : List (Stmt Depth) → Chronicle Completion
  | [] => return .normal
  | s :: rest => do
    match ← k.exec env s with
    | .normal => execAll env rest
    | completion => return completion

def invoke (c : Closure) (args : List Value) : Chronicle Value := do
  let address ← newFrame ((c.decl.params.map (·.lexeme)).zip args)
  log (.entered c args)
  let completion ← k.execAll (address :: c.env) c.decl.body
  let v ← result c completion
  log (.left c v)
  return v

def invokeOn (c : Closure) (receiver : Object) (args : List Value) : Chronicle Value := do
  k.invoke (← bindMethod c receiver) args

def construct (cls : ClassValue) (args : List Value) : Chronicle Value := do
  let object ← newObject cls
  match cls.constructor? with
  | none => return .object object
  | some c => do
    let _ ← k.invokeOn c object args
    return .object object

def invokeCallable (callee : Callable) (args : List Value) (line : Nat) : Chronicle Value :=
  match callee with
  | .native n => act (Interp.invokeNative n args line)
  | .routine c => k.invoke c args
  | .classValue c => k.construct c args

def call (callee : Value) (args : List Value) (line : Nat) : Chronicle Value :=
  match Callable.ofValue? callee with
  | none => act (Run.fail line .notCallable)
  | some callable =>
    if Interp.takes callable.arity args.length then do
      act (Run.pushCall ⟨callable.name, args⟩)
      act (callable.begin args line)
      let since ← record (.called callee args)
      let result ← k.invokeCallable callable args line
      log (.came since callee result)
      act Run.popCall
      act (Run.note fun m => "return " ++ callable.name ++ " " ++ result.result m.fieldNames)
      return result
    else act (Run.fail line (.wrongCount (callable.arity.getD 0) args.length))

def readProperty (object : Object) (name : Token) (inside : Bool) : Chronicle Value :=
  if inside then readField object name
  else
    match object.cls.getter? name.lexeme, object.cls.setter? name.lexeme with
    | some getter, _ => k.invokeOn getter object []
    | none, some _ => act (Run.fail name.line (.setterOnly name.lexeme))
    | none, none => readField object name

def getProperty (target : Value) (name : Token) (inside : Bool) : Chronicle Value :=
  match target with
  | .object object => k.readProperty object name inside
  | .classValue cls =>
    match cls.static? name.lexeme with
    | some method => return .routine method
    | none => act (Run.fail name.line (.undefinedStatic name.lexeme))
  | _ => act (Run.fail name.line .propertyOfOther)

def writeProperty (object : Object) (name : Token) (v : Value) (inside : Bool) : Chronicle Unit :=
  if inside then writeField object name v inside
  else
    match object.cls.setter? name.lexeme, object.cls.getter? name.lexeme with
    | some setter, _ => do
      let _ ← k.invokeOn setter object [v]
    | none, some _ => act (Run.fail name.line (.getterOnly name.lexeme))
    | none, none => writeField object name v inside

/-- Evaluates an expression. -/
def evalStep (env : Env) : Expr Depth → Chronicle Value
  | .literal value => return .scalar value
  | .array items => do
    let values ← k.evalAll env items
    return .array (← event (.array items) fun ident => .array ident values) values
  | .grouping inner => k.eval env inner
  | .unary op operand => do
    let value ← k.eval env operand
    act (Run.orFail op.line (Operator.unary op value))
  | .binary left op right => do
    let a ← k.eval env left
    let b ← k.eval env right
    act (Run.orFail op.line (Operator.binary op a b))
  | .logical left op right => do
    let value ← k.eval env left
    if Interp.settles op value then return value else k.eval env right
  | .conditional condition yes no => do
    if ← k.test env condition then k.eval env yes else k.eval env no
  | .variable ref => readRef ref env
  | .assign ref value => do
    let v ← k.eval env value
    writeRef ref env v
    return v
  | .step direction ref => stepRef ref direction .expression env
  | .call callee paren args => do
    let target ← k.eval env callee
    let values ← k.evalAll env args
    k.call target values paren.line
  | .get object name inside => do
    let target ← k.eval env object
    k.getProperty target name inside
  | .set object name value inside => do
    match ← k.eval env object with
    | .object target => do
      let v ← k.eval env value
      k.writeProperty target name v inside
      return v
    | _ => act (Run.fail name.line .fieldOfOther)
  | .receiver ref => readRef ref env
  | .inherited ref method => inherited ref method env

def superclass (env : Env) : Option (Reference Depth) → Chronicle (Option ClassValue)
  | none => return none
  | some ref => do
    match ← k.eval env (.variable ref) with
    | .classValue cls => return some cls
    | _ => act (Run.fail ref.name.line .superclassNotClass)

def declareClass (env : Env) (name : Token) (superclass : Option (Reference Depth))
    (methods statics getters setters : List (Routine (Stmt Depth))) : Chronicle Unit := do
  define env name.lexeme .zilch
  let parent ← k.superclass env superclass
  let inner ← Chronicle.classEnv env parent
  let methods ← Chronicle.closures inner (· == constructorName) methods .empty
  let statics ← Chronicle.closures inner (fun _ => false) statics .empty
  let getters ← Chronicle.closures inner (fun _ => false) getters .empty
  let setters ← Chronicle.closures inner (fun _ => false) setters .empty
  let own (ident : Nat) : Layer := ⟨ident, name.lexeme, methods, statics, getters, setters⟩
  let cls (ident : Nat) : ClassValue := ⟨own ident, (parent.map (·.lineage)).getD []⟩
  let ident ← event (.classDecl name) fun ident => .classValue (cls ident)
  act (Run.note fun m => "class " ++ (Value.classValue (cls ident)).detailed m.fieldNames)
  assign env name (.classValue (cls ident))

def advance (env : Env) (after : Option (Expr Depth)) : Chronicle Unit := do
  let _ ← k.evalOption env after

def begin (env : Env) : Option (ForStart Depth) → Chronicle Unit
  | none => return
  | some start => do
    let _ ← k.exec env start.toStmt

/-- Executes a statement. -/
def execStep (env : Env) : Stmt Depth → Chronicle Completion
  | .expr e => do
    let _ ← k.eval env e
    return .normal
  | .echo e => do
    let v ← k.eval env e
    act (Run.write (v.display ++ "\n"))
    return .normal
  | .var name value => do
    let v ← k.evalOption env value
    define env name.lexeme v
    return .normal
  | .block body => do
    let address ← newFrame []
    k.execAll (address :: env) body
  | .exit keyword code => do
    let v ← k.eval env code
    act (Interp.exitWith keyword.line v)
  | .branch condition yes no => do
    if ← k.test env condition then k.exec env yes
    else
      match no with
      | some s => k.exec env s
      | none => return .normal
  | .loop condition body =>
    Chronicle.loop (k.test env condition) (k.exec env body) (pure ()) k.fuel
  | .forLoop start condition after body => do
    let address ← newFrame []
    let inner := address :: env
    k.begin inner start
    Chronicle.loop (k.test inner condition) (k.exec inner body) (k.advance inner after) k.fuel
  | .step direction ref => do
    let _ ← stepRef ref direction .statement env
    return .normal
  | .jump .breakLoop _ => return .broke
  | .jump .continueLoop _ => return .continued
  | .routine decl => do
    let closure (ident : Nat) : Closure := ⟨ident, decl, env, false⟩
    let ident ← event (.routine decl) fun ident => .routine (closure ident)
    define env decl.name.lexeme (.routine (closure ident))
    return .normal
  | .giveBack _ value => do
    return .returned (← k.evalOption env value)
  | .classDecl name superclass methods statics getters setters => do
    k.declareClass env name superclass methods statics getters setters
    return .normal

end Scribe

namespace Chronicle

mutual

/-- Evaluates an expression with at most `fuel` levels; its value is entered. -/
def evalAt : Nat → Env → Expr Depth → Chronicle Value
  | 0, _, _ => act (throw .exhausted)
  | fuel + 1, env, e => do
    let v ← Scribe.evalStep ⟨fuel, evalAt fuel, execAt fuel⟩ env e
    log (.gave e v)
    return v

/-- Executes a statement with at most `fuel` levels; how it ends is entered. -/
def execAt : Nat → Env → Stmt Depth → Chronicle Completion
  | 0, _, _ => act (throw .exhausted)
  | fuel + 1, env, s => do
    let completion ← Scribe.execStep ⟨fuel, evalAt fuel, execAt fuel⟩ env s
    log (.ran s completion)
    return completion

end

/-- The scribe of so many levels. -/
def scribeAt (fuel : Nat) : Scribe := ⟨fuel, evalAt fuel, execAt fuel⟩

/-- Executes the statements of a program one after the other at the top level. -/
def run (fuel : Nat) : Program Depth → Chronicle Unit
  | [] => return
  | s :: rest => do
    let _ ← execAt fuel Machine.globalEnv s
    run fuel rest

/-! ## Sessions -/

/-- A new session: its chronicle begins with the native routines. -/
def start (natives tracing : Bool) (input : String) (clock : Float) : Annals where
  machine := Session.newMachine natives tracing input clock
  past :=
    if natives then
      Entry.puts Machine.globalAddress (Native.all.map fun n => (n.name, .native n))
        ++ Native.all.map fun n => .made (.builtIn n) (.native n)
    else []

/-- Runs a script. -/
def runScript (s : Annals) (step : String × Bool) : Outcome × Annals :=
  match Session.prepare step.1 with
  | ([], program) =>
    match run Session.fuel (Session.echoed step.2 program)
      { s with machine := Session.ready s.machine } with
    | .ok _ t => (.success, t)
    | .error signal t => (Session.outcomeOf t.machine.calls signal, t)
  | (reports, _) => (.rejected reports, s)

/-- Runs scripts one after the other. -/
def runScripts (s : Annals) : List (String × Bool) → List Outcome × Annals
  | [] => ([], s)
  | step :: steps =>
    let (outcome, next) := runScript s step
    let (outcomes, last) := runScripts next steps
    (outcome :: outcomes, last)

end Chronicle

end KScript

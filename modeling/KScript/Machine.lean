import KScript.Value.Text

/-!
# The machine

The state in which a script runs, and the ways in which a run can be cut short.  Expressions and
statements are programs of the `Run` monad: whatever the outcome, the state that was reached stays.
-/

namespace KScript

/-- What a script reads from and writes to. -/
structure Console where
  /-- The text written so far. -/
  output : String
  /-- The text not read yet. -/
  input : List Char
  /-- The time that the clock shows, in seconds. -/
  clock : Float

/-- A call that has begun and not come back. -/
structure CallRecord where
  name : String
  args : List Value

/-- The state of a run. -/
structure Machine where
  /-- The frames; the global one has the address zero. -/
  frames : Frames Value
  /-- The fields of the objects, by number. -/
  fields : Array (Table Value)
  /-- The number of the next array, routine or class to be made. -/
  fresh : Nat
  /-- The calls that have begun and not come back, innermost first. -/
  calls : List CallRecord
  console : Console
  /-- Whether debug lines are kept. -/
  tracing : Bool
  /-- The debug lines, latest first. -/
  notes : List String

/-- How a run is cut short. -/
inductive Signal where
  | failure (line : Nat) (cause : Cause)
  | exit (code : Int)
  | crash (crash : Crash)
  /-- The bound on the number of steps was reached. -/
  | exhausted
deriving DecidableEq

/-- Computations on the machine that can be cut short. -/
abbrev Run := EStateM Signal Machine

namespace Machine

/-- The address of the global frame. -/
def globalAddress : Address := 0

/-- The environment of the top level. -/
def globalEnv : Env := [globalAddress]

/-- The fields of an object. -/
def fieldsOf (m : Machine) (ident : Nat) : Table Value := m.fields[ident]?.getD Table.empty

/-- The names of the fields of an object, oldest first. -/
def fieldNames (m : Machine) (ident : Nat) : List String := (m.fieldsOf ident).keys

end Machine

namespace Run

/-- Stops with a failure on that line. -/
def fail {α : Type} (line : Nat) (cause : Cause) : Run α := throw (.failure line cause)

/-- Goes on with a result, or breaks down. -/
def orCrash {α : Type} : Except Crash α → Run α
  | .ok a => return a
  | .error c => throw (.crash c)

/-- Goes on with a result, or fails on that line. -/
def orFail {α : Type} (line : Nat) : Except Cause α → Run α
  | .ok a => return a
  | .error cause => fail line cause

/-- A new frame with these bindings. -/
def newFrame (bindings : Table Value) : Run Address :=
  modifyGet fun m => (m.frames.size, { m with frames := m.frames.push bindings })

/-- The number of a new event. -/
def newIdent : Run Nat := modifyGet fun m => (m.fresh, { m with fresh := m.fresh + 1 })

/-- A new object without fields. -/
def newObject (cls : ClassValue) : Run Object :=
  modifyGet fun m =>
    (⟨m.fields.size, cls⟩, { m with fields := m.fields.push Table.empty })

/-- Binds a name in the innermost frame. -/
def define (env : Env) (name : String) (value : Value) : Run Unit :=
  match env with
  | [] => return
  | address :: _ => modify fun m => { m with frames := m.frames.define address name value }

/-- Writes a field of an object. -/
def putField (object : Object) (name : String) (value : Value) : Run Unit :=
  modify fun m => { m with fields := m.fields.modify object.ident (·.insert name value) }

/-- Writes to the console. -/
def write (text : String) : Run Unit :=
  modify fun m => { m with console := { m.console with output := m.console.output ++ text } }

/-- Keeps a debug line, if debug lines are kept. -/
def note (text : Machine → String) : Run Unit :=
  modify fun m => if m.tracing then { m with notes := ("[DBG] " ++ text m) :: m.notes } else m

/-- Lists a call as begun. -/
def pushCall (call : CallRecord) : Run Unit := modify fun m => { m with calls := call :: m.calls }

/-- Strikes the innermost call off the list. -/
def popCall : Run Unit := modify fun m => { m with calls := m.calls.tail }

end Run

end KScript

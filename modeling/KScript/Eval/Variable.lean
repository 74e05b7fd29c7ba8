import KScript.Eval.Interp

/-!
# Variables

A reference with a depth reads and writes the frame that many steps out; one without reads and writes
the global frame.
-/

namespace KScript

/-- The value of a reference. -/
def Reference.read (ref : Reference Depth) (env : Env) : Run Value := do
  let frames := (← get).frames
  let name := ref.name.lexeme
  match ref.bound with
  | some depth => Run.orCrash (frames.getAt env depth name)
  | none =>
    match (frames.frame Machine.globalAddress).find? name with
    | some value => return value
    | none => Run.fail ref.name.line (.undefinedVariable name)

/-- Gives a reference a value. -/
def Reference.write (ref : Reference Depth) (env : Env) (value : Value) : Run Unit := do
  let name := ref.name.lexeme
  match ref.bound with
  | some depth =>
    match env[depth]? with
    | none => throw (.crash .offChain)
    | some address => modify fun m => { m with frames := m.frames.define address name value }
  | none =>
    if ((← get).frames.frame Machine.globalAddress).contains name then
      modify fun m =>
        { m with frames := m.frames.define Machine.globalAddress name value }
    else Run.fail ref.name.line (.undefinedVariable name)

/-- How far a counting step goes. -/
def Direction.delta : Direction → Float
  | .up => 1.0
  | .down => -1.0

/-- Moves a variable by one; the result is the value it had before. -/
def Reference.step (ref : Reference Depth) (direction : Direction) (use : StepUse) (env : Env) :
    Run Value := do
  match ← ref.read env with
  | .number x =>
    ref.write env (.number (x + direction.delta))
    return .number x
  | _ => Run.fail ref.name.line (.steppedNotNumber direction use)

end KScript

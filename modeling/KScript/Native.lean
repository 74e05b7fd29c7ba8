import KScript.Machine
import KScript.Number.Arithmetic

/-!
# Native routines

What the native routines do.  They see their arguments and the console and nothing else of the
machine; a mistake in a call is told without a line, since only the caller knows it.
-/

namespace KScript

namespace Console

def write (c : Console) (text : String) : Console := { c with output := c.output ++ text }

/--
The next line of the input, without the line break and carriage returns at its end; `none` at the end
of the input.
-/
def readLine (c : Console) : Option String × Console :=
  match c.input with
  | [] => (none, c)
  | chars =>
    let line := chars.takeWhile (· != '\n')
    (some (String.ofList (line.reverse.dropWhile (· == '\r')).reverse),
      { c with input := chars.drop (line.length + 1) })

end Console

/-- How a call of a native routine can go wrong. -/
inductive NativeError where
  | failure (cause : Cause)
  | crash (crash : Crash)

namespace Native

/-- The number that an argument has to be. -/
def numberArg (otherwise : Cause) : Value → Except NativeError Float
  | .number x => .ok x
  | _ => .error (.failure otherwise)

/-- Rounds a number to so many decimal places. -/
def rounded (x : Float) (places : Int) : Except NativeError Value :=
  if x.isFinite then
    match Arithmetic.roundTo? x places with
    | some y => .ok (.number y)
    | none => .error (.crash .roundedTooLarge)
  else .ok (.number x)

/-- The number of decimal places that an argument stands for. -/
def placesArg (v : Value) : Except NativeError Int := do
  let x ← numberArg .digitsNotInteger v
  match Double.toInt? x with
  | some places => .ok places
  | none => .error (.failure .digitsNotInteger)

def applyRound : List Value → Except NativeError Value
  | [v] => do rounded (← numberArg .argumentNotNumber v) 0
  | [v, places] => do
    let x ← numberArg .argumentNotNumber v
    rounded x (← placesArg places)
  | _ => .error (.failure .roundCount)

/-- Reads a line, as a value. -/
def readValue (c : Console) : Except NativeError Value × Console :=
  let (line, c) := c.readLine
  (.ok (line.elim .zilch .text), c)

def applyInput (c : Console) : List Value → Except NativeError Value × Console
  | [] => readValue c
  | [.text prompt] => readValue (c.write prompt)
  | [_] => (.error (.failure .promptNotString), c)
  | _ => (.error (.failure .inputCount), c)

/-- Calls a native routine whose arguments have been counted. -/
def apply (n : Native) (args : List Value) (c : Console) : Except NativeError Value × Console :=
  match n, args with
  | .clock, _ => (.ok (.number c.clock), c)
  | .input, args => applyInput c args
  | .print, args => (.ok .zilch, c.write (" ".intercalate (Value.displayAll args) ++ "\n"))
  | .round, args => (applyRound args, c)
  | .snooze, v :: _ => ((numberArg .argumentNotNumber v).map fun _ => .zilch, c)
  | .sqrt, v :: _ =>
    ((numberArg .argumentNotNumber v).map fun x => .number (Arithmetic.squareRoot x), c)
  | .string, v :: _ => (.ok (.text v.display), c)
  | _, [] => (.ok .zilch, c)

/-- The table of native routines, by name. -/
def table : Table Value := .ofList (all.map fun n => (n.name, .native n))

end Native

end KScript

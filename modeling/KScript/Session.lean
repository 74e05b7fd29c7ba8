import KScript.Eval
import KScript.Scope.Check
import KScript.Scope.Resolve
import KScript.Syntax.Parser.Statement

/-!
# Sessions

A session runs scripts one after the other on one machine.  Each script is scanned, parsed, checked and
resolved; only if nothing is wrong with it does it run, and however it ends, the session goes on from
the state it left.
-/

namespace KScript

/-- How a script ends. -/
inductive Outcome where
  | success
  /-- Something was wrong with the script, and it did not run. -/
  | rejected (reports : List Diagnostic)
  /-- The script failed; `calls` were under way, innermost first. -/
  | failed (line : Nat) (cause : Cause) (calls : List CallRecord)
  | exited (code : Int)
  | crashed (crash : Crash)
  /-- The bound on the number of steps was reached. -/
  | exhausted

namespace Outcome

/-! ## Telling how a script ended -/

/-- A call in a trace: its name and its arguments. -/
def callText (call : CallRecord) : String :=
  let args := " ".intercalate (Value.displayAll call.args)
  if args.isEmpty then "(" ++ call.name ++ ")" else "(" ++ call.name ++ " " ++ args ++ ")"

/-- How many calls a trace shows. -/
def traceLimit : Nat := 10

/-- The calls that were under way, outermost first; of too many, the innermost ones. -/
def traceText (calls : List CallRecord) : Option String :=
  if calls.isEmpty then none
  else
    let shown := (calls.take traceLimit).reverse.map callText
    let texts := if traceLimit < calls.length then "..." :: shown else shown
    some ("K# stacktrace: " ++ " ".intercalate texts)

/-- The message of a failure, with its line. -/
def failureText (line : Nat) (cause : Cause) : String :=
  cause.message ++ "\n[line " ++ toString line ++ "]"

/-- What is reported about a script, one text for each report. -/
def reports : Outcome → List String
  | rejected ds => ds.map (·.text)
  | failed line cause _ => [failureText line cause]
  | _ => []

/-- The first message of a script that went wrong. -/
def message? : Outcome → Option String
  | rejected (d :: _) => some d.complaint.message
  | failed _ cause _ => some cause.message
  | _ => none

/-- The line of the first message. -/
def line? : Outcome → Option Nat
  | rejected (d :: _) => some d.line
  | failed line _ _ => some line
  | _ => none

/-- The trace of a failure in a call. -/
def trace? : Outcome → Option String
  | failed _ _ calls => traceText calls
  | _ => none

/-- The exit status that stands for an outcome. -/
def status : Outcome → Nat
  | rejected _ => 65
  | failed _ _ _ => 70
  | _ => 0

/-- Whether something was wrong with the script before it ran. -/
def hadError : Outcome → Bool
  | rejected _ => true
  | _ => false

/-- Whether the script failed while it ran. -/
def hadRuntimeError : Outcome → Bool
  | failed _ _ _ => true
  | _ => false

/-- All that is reported about a script, as one text. -/
def text (o : Outcome) : String :=
  let reports := "\n".intercalate o.reports
  match o.trace? with
  | some trace => reports ++ "\n" ++ trace
  | none => reports

end Outcome

/-! ## Running scripts -/

/-- A session: its machine, and all that was reported since it began. -/
structure Session where
  machine : Machine
  reported : String

/-- A script that was run. -/
structure Report where
  outcome : Outcome
  /-- What the script wrote. -/
  output : String
  /-- Its debug lines, in order. -/
  notes : List String

/-- The debug lines of a script as one text. -/
def Report.notesText (r : Report) : String := String.join (r.notes.map (· ++ "\n"))

namespace Session

/-- How many levels evaluation may take. -/
def fuel : Nat := 4611686018427387904

/-- A machine on which nothing has run yet. -/
def newMachine (natives tracing : Bool) (input : String) (clock : Float) : Machine where
  frames := #[if natives then Native.table else Table.empty]
  fields := #[]
  fresh := 0
  calls := []
  console := ⟨"", input.toList, clock⟩
  tracing := tracing
  notes := []

/-- A new session, with or without the native routines. -/
def new (natives tracing : Bool) (input : String) (clock : Float) : Session :=
  ⟨newMachine natives tracing input clock, ""⟩

/-- The machine at the start of a script: no call is under way and nothing is written. -/
def ready (m : Machine) : Machine :=
  { m with calls := [], console := { m.console with output := "" }, notes := [] }

/-- A lone expression is written out, if that is asked for. -/
def echoed (echo : Bool) : Program Depth → Program Depth
  | [.expr e] => if echo then [.echo e] else [.expr e]
  | program => program

/-- What is wrong with a script before it runs; the second part is the program if nothing is. -/
def prepare (source : String) : List Diagnostic × Program Depth :=
  let parsed := Parsed.ofSource source
  if parsed.reports.isEmpty then (parsed.program.check, parsed.program.resolve)
  else (parsed.reports, [])

/-- The outcome of a run that was cut short. -/
def outcomeOf (calls : List CallRecord) : Signal → Outcome
  | .failure line cause => .failed line cause calls
  | .exit code => .exited code
  | .crash c => .crashed c
  | .exhausted => .exhausted

/-- Runs a program; the outcome and the machine afterwards. -/
def runProgram (m : Machine) (program : Program Depth) : Outcome × Machine :=
  match Program.run fuel program (ready m) with
  | .ok _ next => (.success, next)
  | .error signal next => (outcomeOf next.calls signal, next)

/-- Adds to what was reported, a line for each report. -/
def tell (s : Session) (o : Outcome) : Session :=
  { s with reported := s.reported ++ String.join (o.reports.map (· ++ "\n")) }

/-- Runs a script. -/
def runScript (s : Session) (source : String) (echo : Bool) : Report × Session :=
  match prepare source with
  | ([], program) =>
    let (outcome, machine) := runProgram s.machine (echoed echo program)
    (⟨outcome, machine.console.output, machine.notes.reverse⟩, { s with machine }.tell outcome)
  | (reports, _) => (⟨.rejected reports, "", []⟩, s.tell (.rejected reports))

/-- Evaluates an expression at the top level. -/
def evaluate (s : Session) (e : Expr Depth) : Except Signal Value × Session :=
  match evalAt fuel Machine.globalEnv e (ready s.machine) with
  | .ok v machine => (.ok v, { s with machine })
  | .error signal machine => (.error signal, { s with machine })

/-! ## Looking at the state -/

/-- Whether a global is a native routine under its own name. -/
def isBuiltIn : String × Value → Bool
  | (name, .native n) => n.name == name
  | _ => false

/-- The global variables by name, without the native routines that are still in place. -/
def globals (s : Session) : List (String × Value) :=
  let entries := (s.machine.frames.frame Machine.globalAddress).entries
  (entries.filter (!isBuiltIn ·)).mergeSort fun a b => a.1 ≤ b.1

end Session

end KScript

import KScript.Dump.Format
import KScript.Folder
import KScript.Session

/-!
# The command line

With a script as its argument the program runs it, or dumps its syntax tree as YAML or JSON; without
one it holds a conversation.  All that it does is a function of the arguments, the file and the
input.
-/

namespace KScript.CommandLine

/-! ## Arguments -/

/-- What the arguments ask for. -/
structure Options where
  script : Option String
  dump : Option Dump.Format
deriving DecidableEq

/-- The option that asks for a dump. -/
def dumpOption : String := "--dump-ast"

/-- The format that an option asks for; `none` if it is not a dump option. -/
def dumpArgument? (arg : String) : Option (Option Dump.Format) :=
  if arg = dumpOption then some (some .yaml)
  else if (dumpOption ++ "=").isPrefixOf arg then
    some (Dump.Format.ofName? (String.ofList (arg.toList.drop (dumpOption.length + 1))))
  else none

/-- Reads one more argument; the error is the argument that is wrong. -/
def readArgument (options : Options) (arg : String) : Except String Options :=
  match dumpArgument? arg with
  | some (some format) => .ok { options with dump := some format }
  | some none => .error arg
  | none =>
    if "-".isPrefixOf arg then .error arg
    else
      match options.script with
      | none => .ok { options with script := some arg }
      | some _ => .error arg

/-- Reads arguments from left to right. -/
def readArguments (options : Options) : List String → Except String Options
  | [] => .ok options
  | arg :: rest => do readArguments (← readArgument options arg) rest

/-- Reads all arguments; a dump needs a script. -/
def parse (args : List String) : Except String Options := do
  let options ← readArguments ⟨none, none⟩ args
  if options.dump.isSome && options.script.isNone then .error dumpOption else .ok options

/-! ## Running -/

/-- How the program ends. -/
inductive Ending where
  /-- With this exit status. -/
  | status (code : Nat)
  /-- By the `exit` of a script. -/
  | exited (code : Int)
  | crashed (crash : Crash)
  /-- Without the script, which could not be read. -/
  | unreadable (why : Folder.Refusal)
  | exhausted

/-- What the program did. -/
structure Result where
  ending : Ending
  out : String
  err : String

def usage : String := "Usage: ksharp [--dump-ast[=yaml|json]] [script]"

/-- A text with a line break for each end of a line, also for a lone carriage return. -/
def normalizeBreaks : List Char → List Char
  | [] => []
  | '\r' :: '\n' :: rest => '\n' :: normalizeBreaks rest
  | '\r' :: rest => '\n' :: normalizeBreaks rest
  | c :: rest => c :: normalizeBreaks rest

/-- The ending for the outcome of a script. -/
def endingOf : Outcome → Ending
  | .exited code => .exited code
  | .crashed c => .crashed c
  | .exhausted => .exhausted
  | o => .status o.status

/-- What is told about the outcome of a script. -/
def errorText (o : Outcome) : String := if o.reports.isEmpty then "" else o.text ++ "\n"

/-- Runs a script. -/
def runScript (source input : String) (clock : Float) : Result :=
  let (report, _) := (Session.new true false input clock).runScript source false
  ⟨endingOf report.outcome, report.output, errorText report.outcome⟩

/-- Dumps a script, or tells what is wrong with its syntax. -/
def dumpScript (format : Dump.Format) (source : String) : Result :=
  let parsed := Parsed.ofSource source
  if parsed.reports.isEmpty then ⟨.status 0, Dump.text format parsed.program, ""⟩
  else ⟨.status 65, "", String.join (parsed.reports.map (·.text ++ "\n"))⟩

/-! ## Conversations -/

def greeting : String := "K# REPL v0.1\nEnter an empty line or press Ctrl+D to quit.\n"

def promptText : String := "> "

/-- Reads a line of the input of a session; an empty line and the end of the input both give `""`. -/
def readLine (s : Session) : String × Session :=
  let (line, console) := s.machine.console.readLine
  (line.getD "", { s with machine := { s.machine with console } })

/-- Runs line after line, up to an empty one or the end of the input. -/
def converse (s : Session) (out err : String) : Nat → Result
  | 0 => ⟨.status 0, out, err⟩
  | fuel + 1 =>
    let out := out ++ promptText
    let (line, s) := readLine s
    if line.isEmpty then ⟨.status 0, out, err⟩
    else
      let (report, s) := s.runScript line true
      let out := out ++ report.output
      match endingOf report.outcome with
      | .status _ => converse s out (err ++ errorText report.outcome) fuel
      | ending => ⟨ending, out, err⟩

/-- Holds a conversation; each turn but the last reads a line of the input. -/
def conversation (input : String) (clock : Float) : Result :=
  converse (Session.new true false input clock) greeting "" (input.length + 1)

/-- The source text in the content of a file. -/
def sourceOf (content : String) : String := String.ofList (normalizeBreaks content.toList)

/-- Whether the program can read its input: scripts do so only by the name of a native routine. -/
def wantsInput (args : List String) (content : Folder.Reading) : Bool :=
  match parse args, content with
  | .ok ⟨none, _⟩, _ => true
  | .ok ⟨some _, none⟩, .text text =>
    (Scan.ofSource (sourceOf text)).tokens.any (·.lexeme = Native.input.name)
  | _, _ => false

/-- The program: `read` gives what is found at a path. -/
def run (args : List String) (read : Folder.Path → Folder.Reading) (input : String)
    (clock : Float) : Result :=
  match parse args with
  | .error _ => ⟨.status 64, "", usage ++ "\n"⟩
  | .ok ⟨none, _⟩ => conversation input clock
  | .ok ⟨some path, dump⟩ =>
    match read (.ofString path) with
    | .missing => ⟨.status 66, "", "Error: file not found: " ++ path ++ "\n"⟩
    | .refused why => ⟨.unreadable why, "", ""⟩
    | .text content =>
      match dump with
      | some format => dumpScript format (sourceOf content)
      | none => runScript (sourceOf content) input clock

end KScript.CommandLine

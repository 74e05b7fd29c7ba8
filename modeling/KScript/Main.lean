import KScript.CommandLine

/-!
# The program

Reads what the command line asks for, hands it to `CommandLine.run`, and writes what comes back.
-/

open KScript

/-- What is found at a path. -/
def readSource (path : Folder.Path) : IO Folder.Reading := do
  try
    return .text (← IO.FS.readFile path.text)
  catch
    | .noFileOrDirectory .. => return .missing
    | _ => return .refused .other

/-- The exit status that the system sees. -/
def systemStatus : CommandLine.Ending → UInt32
  | .status code => code.toUInt32
  | .exited code => (code % 256).toNat.toUInt32
  | _ => 1

/-- What is told about an ending that the program itself says nothing about. -/
def farewell : CommandLine.Ending → String
  | .crashed c => "Internal error: " ++ c.message?.getD "no such frame" ++ "\n"
  | .unreadable _ => "Error: the script cannot be read\n"
  | .exhausted => "Error: the script takes too many steps\n"
  | _ => ""

def main (args : List String) : IO UInt32 := do
  let script := ((CommandLine.parse args).toOption.bind (·.script)).getD ""
  let content ← readSource (.ofString script)
  let input ←
    if CommandLine.wantsInput args content then (← IO.getStdin).readToEnd else pure ""
  let clock := (← IO.monoMsNow).toFloat / 1000.0
  let result := CommandLine.run args (fun _ => content) input clock
  IO.print result.out
  IO.eprint (result.err ++ farewell result.ending)
  return systemStatus result.ending

import KScript.Dump.Data
import KScript.Number.Layout
import KScript.Text.Quoted

/-!
# Data as JSON

Every item of a list and every field of a record is on a line of its own, two columns further in than
what holds it.  Only quotes, backslashes and control characters are escaped.
-/

namespace KScript.Json

/-- How JSON writes numbers that are not integers. -/
def numberLayout : Layout :=
  { Layout.detailed with
    positiveInfinity := "Infinity"
    negativeInfinity := "-Infinity"
    nan := "NaN" }

/-- How a character is written inside of a string. -/
def escape (c : Char) : List Char :=
  if c = '"' then ['\\', '"']
  else if c = '\\' then ['\\', '\\']
  else if c = '\n' then ['\\', 'n']
  else if c = '\r' then ['\\', 'r']
  else if c = '\t' then ['\\', 't']
  else if c = '\x08' then ['\\', 'b']
  else if c = '\x0c' then ['\\', 'f']
  else if c.toNat < 0x20 then '\\' :: 'u' :: Text.hexadecimal 4 c.toNat
  else [c]

/-- A text as a JSON string. -/
def stringText (s : String) : String :=
  String.ofList ('"' :: s.toList.flatMap escape ++ ['"'])

/-- The start of a line. -/
def newLine (indent : Nat) : String := "\n" ++ String.ofList (List.replicate indent ' ')

/-- Parts between brackets, each on its own line. -/
def bracketed (opening closing : String) (indent : Nat) (parts : List String) : String :=
  if parts.isEmpty then opening ++ closing
  else
    opening ++ newLine (indent + 2) ++ ("," ++ newLine (indent + 2)).intercalate parts
      ++ newLine indent ++ closing

mutual

/-- Data as JSON text that begins at an indent. -/
def text (indent : Nat) : Data → String
  | .null => "null"
  | .bool true => "true"
  | .bool false => "false"
  | .integer n => toString n
  | .float x => numberLayout.text x
  | .text s => stringText s
  | .list items => bracketed "[" "]" indent (texts (indent + 2) items)
  | .record fields => bracketed "\x7b" "\x7d" indent (fieldTexts (indent + 2) fields)

/-- Items as JSON texts. -/
def texts (indent : Nat) : List Data → List String
  | [] => []
  | d :: rest => text indent d :: texts indent rest

/-- Fields as JSON texts. -/
def fieldTexts (indent : Nat) : List (String × Data) → List String
  | [] => []
  | (name, d) :: rest => (stringText name ++ ": " ++ text indent d) :: fieldTexts indent rest

end

end KScript.Json

import KScript.Dump.Yaml.Implicit
import KScript.Text.Quoted

/-!
# Texts in YAML

A text is written plain if it cannot be mistaken for anything else, else between single quotes, and
between double quotes if it holds characters that need an escape or spaces next to line breaks.  A line
that has grown past eighty columns is broken at the next single space.
-/

namespace KScript.Yaml

/-! ## The style of a text -/

/-- The ways of writing a text. -/
inductive Style where
  | plain
  | single
  | double
deriving DecidableEq

def isBreak (c : Char) : Bool := "\n\u0085\u2028\u2029".toList.contains c

def isBlank (c : Char) : Bool := "\x00 \t\r".toList.contains c || isBreak c

/-- Whether a text is at its end or goes on with a blank. -/
def blankNext : List Char → Bool
  | [] => true
  | c :: _ => isBlank c

/-- Whether a first character and what follows it would open something other than a plain text. -/
def opensMarkup (c : Char) (rest : List Char) : Bool :=
  "#,[]\x7b\x7d&*!|>'\"%@\x60".toList.contains c
    || ("?:-".toList.contains c && blankNext rest)

/-- Whether a later colon ends a key, or a later hash after `previous` opens a comment. -/
def holdsMarkup (previous : Char) : List Char → Bool
  | [] => false
  | c :: rest =>
    (c == ':' && blankNext rest) || (c == '#' && isBlank previous) || holdsMarkup c rest

/-- Whether a text has a character that needs an escape. -/
def needsEscape (c : Char) : Bool := !(c == '\n' || (' ' ≤ c && c ≤ '~'))

/-- Whether a space and a line break stand next to each other. -/
def spaceAtBreak : List Char → Bool
  | a :: b :: rest =>
    (a == ' ' && isBreak b) || (isBreak a && b == ' ') || spaceAtBreak (b :: rest)
  | _ => false

/-- Whether a text begins like the border of a document. -/
def opensDocument (text : List Char) : Bool :=
  ['-', '-', '-'].isPrefixOf text || ['.', '.', '.'].isPrefixOf text

/-- Whether a text could be mistaken for something else if it were written plain. -/
def mistakable : List Char → Bool
  | [] => true
  | c :: rest =>
    let text := c :: rest
    let last := rest.getLast?.getD c
    implicit.accepts text || opensDocument text || opensMarkup c rest || holdsMarkup c rest
      || c == ' ' || last == ' ' || text.any isBreak

/-- The style in which a text is written. -/
def styleOf (text : List Char) : Style :=
  if text.any needsEscape || spaceAtBreak text then .double
  else if mistakable text then .single
  else .plain

/-! ## Writing a text -/

/-- What is written so far, and the column it ends at. -/
structure Pen where
  written : String
  column : Nat

namespace Pen

/-- Writes characters of one line. -/
def put (p : Pen) (chars : List Char) : Pen :=
  ⟨p.written ++ String.ofList chars, p.column + chars.length⟩

/-- Ends the line. -/
def endLine (p : Pen) : Pen := ⟨p.written ++ "\n", 0⟩

/-- Goes on at a column of the same line. -/
def indentTo (p : Pen) (indent : Nat) : Pen :=
  p.put (List.replicate (indent - p.column) ' ')

end Pen

/-- The column beyond which a line is broken. -/
def bestWidth : Nat := 80

/-- The runs of spaces, of line breaks and of other characters that make up a text. -/
def runs (text : List Char) : List (List Char) :=
  text.splitBy fun a b => (a == ' ') == (b == ' ') && isBreak a == isBreak b

/-- Writes a single space, at which a line that is too long is broken. -/
def putSpace (indent : Nat) (p : Pen) : Pen :=
  if bestWidth < p.column then p.endLine.indentTo indent else p.put [' ']

/-- Writes a run of a plain text. -/
def putPlain (indent : Nat) (p : Pen) (run : List Char) : Pen :=
  if run = [' '] then putSpace indent p else p.put run

/-- Writes a text plain. -/
def plainText (indent : Nat) (p : Pen) (text : List Char) : Pen :=
  (runs text).foldl (putPlain indent) p

/-- Writes a run of line breaks: the first takes an empty line, and the text goes on indented. -/
def putBreaks (indent : Nat) (p : Pen) (run : List Char) : Pen :=
  (run.foldl (fun p _ => p.endLine) p.endLine).indentTo indent

/-- A quote inside of single quotes is written twice. -/
def doubleQuotes (run : List Char) : List Char :=
  run.flatMap fun c => if c = '\'' then ['\'', '\''] else [c]

/-- Writes the runs of a text between single quotes; `isFirst` at the first of them. -/
def putSingle (indent : Nat) (p : Pen) (isFirst : Bool) : List (List Char) → Pen
  | [] => p
  | run :: rest =>
    let next :=
      if run.any isBreak then putBreaks indent p run
      else if run = [' '] && !isFirst && !rest.isEmpty then putSpace indent p
      else p.put (doubleQuotes run)
    putSingle indent next false rest

/-- Writes a text between single quotes. -/
def singleText (indent : Nat) (p : Pen) (text : List Char) : Pen :=
  (putSingle indent (p.put ['\'']) true (runs text)).put ['\'']

/-- The letters that stand for characters after a backslash. -/
def shortEscapes : List (Char × Char) :=
  [('\x00', '0'), ('\x07', 'a'), ('\x08', 'b'), ('\t', 't'), ('\n', 'n'), ('\x0b', 'v'),
   ('\x0c', 'f'), ('\r', 'r'), ('\x1b', 'e'), ('"', '"'), ('\\', '\\'), ('\u0085', 'N'),
   ('\u00a0', '_'), ('\u2028', 'L'), ('\u2029', 'P')]

/-- A character by its number, with capital digits. -/
def numberEscape (c : Char) : List Char :=
  let digits (width : Nat) := (Text.hexadecimal width c.toNat).map Char.toUpper
  if c.toNat ≤ 0xff then '\\' :: 'x' :: digits 2
  else if c.toNat ≤ 0xffff then '\\' :: 'u' :: digits 4
  else '\\' :: 'U' :: digits 8

/-- The escape of a character, if it needs one between double quotes. -/
def escape? (c : Char) : Option (List Char) :=
  match shortEscapes.lookup c with
  | some letter => some ['\\', letter]
  | none => if ' ' ≤ c && c ≤ '~' then none else some (numberEscape c)

/-- Breaks a line between double quotes: a backslash ends it, and another keeps a space that follows. -/
def breakDouble (indent : Nat) (p : Pen) (pending : List Char) (next : Option Char) : Pen :=
  let p := ((p.put pending).put ['\\']).endLine.indentTo indent
  if next = some ' ' then p.put ['\\'] else p

/--
Writes a text between double quotes.  Characters without an escape are `pending` until an escape, a
break or the end.  A line that is too long is broken in front of a space or of a character with nothing
pending, and after an escape, but never before the first or the last character.
-/
def putDouble (indent : Nat) (p : Pen) (pending : List Char) (isFirst : Bool) : List Char → Pen
  | [] => p.put pending
  | c :: rest =>
    let inside := !isFirst && !rest.isEmpty
    match escape? c with
    | some escaped =>
      let p := (p.put pending).put escaped
      if inside && bestWidth + 1 < p.column then
        putDouble indent (breakDouble indent p [] rest.head?) [] false rest
      else putDouble indent p [] false rest
    | none =>
      if inside && (c == ' ' || pending.isEmpty) && bestWidth < p.column + pending.length then
        putDouble indent (breakDouble indent p pending (some c)) [c] false rest
      else putDouble indent p (pending ++ [c]) false rest

/-- Writes a text between double quotes. -/
def doubleText (indent : Nat) (p : Pen) (text : List Char) : Pen :=
  (putDouble indent (p.put ['"']) [] true text).put ['"']

/-- A text that begins at a column and goes on at an indent. -/
def stringText (indent column : Nat) (s : String) : String :=
  let text := s.toList
  let p : Pen := ⟨"", column⟩
  (match styleOf text with
    | .plain => plainText indent p text
    | .single => singleText indent p text
    | .double => doubleText indent p text).written

end KScript.Yaml

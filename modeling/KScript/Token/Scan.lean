import KScript.Diagnostic
import KScript.Number.Decimal

/-!
# Scanning

A source text is cut into *pieces* that tile it: tokens, blanks, comments and faulty fragments.  What
the next piece is depends only on the text in front of it (`classify`), never on the line or on what
came before, so cutting is one pass over the characters.  Lines are counted afterwards: a piece is on
the line it ends on.
-/

namespace KScript.Scan

/-- What a piece of the source is. -/
inductive Piece where
  | token (kind : Kind) (literal : Option Literal)
  | blank
  | comment
  | fault (complaint : Complaint)
deriving DecidableEq

/-! ## Characters -/

def isLetter (c : Char) : Bool := c.isAlpha || c == '_'

def isWordChar (c : Char) : Bool := isLetter c || c.isDigit

def isBinaryDigit (c : Char) : Bool := c == '0' || c == '1'

def isHexDigit (c : Char) : Bool := c.isDigit || ('a' ≤ c && c ≤ 'f') || ('A' ≤ c && c ≤ 'F')

/-! ## The next piece

Each of these functions looks at the text after a first character and says what piece begins there
and how many characters beyond the first belong to it. -/

/-- A token without a value that has `more` characters after its first. -/
def plain (kind : Kind) (more : Nat) : Piece × Nat := (.token kind none, more)

/-- One kind, or another if `=` follows. -/
def withEqual (single compound : Kind) : List Char → Piece × Nat
  | '=' :: _ => plain compound 1
  | _ => plain single 0

/-- After `<`. -/
def lesserPiece : List Char → Piece × Nat
  | '=' :: _ => plain .lesserEqual 1
  | '-' :: _ => plain .lesserMinus 1
  | _ => plain .lesser 0

/-- After `/`: a comment runs up to the end of its line. -/
def slashPiece : List Char → Piece × Nat
  | '/' :: rest => (.comment, 1 + (rest.takeWhile (· != '\n')).length)
  | '=' :: _ => plain .slashEqual 1
  | _ => plain .slash 0

/-- After an opening quote: the text up to the next quote of that sort, or to the end. -/
def stringPiece (quote : Char) (rest : List Char) : Piece × Nat :=
  let body := rest.takeWhile (· != quote)
  if body.length < rest.length then
    (.token .string (some (.string (String.ofList body))), body.length + 1)
  else (.fault .unterminatedString, body.length)

/-- After a base mark such as `0x`: the digits of that base, of which there is at least one. -/
def basePiece (base : Nat) (isBaseDigit : Char → Bool) (rest : List Char) : Piece × Nat :=
  let digits := rest.takeWhile isBaseDigit
  if digits.isEmpty then (.fault .missingBaseDigit, 1)
  else
    (.token .number (some (.number (Double.ofNat (Decimal.natOfDigits base digits)))),
      1 + digits.length)

/-- The digits after a point, if the text goes on with a point and a digit. -/
def fraction : List Char → List Char
  | '.' :: rest => rest.takeWhile Char.isDigit
  | _ => []

/-- A decimal numeral with first digit `c`: digits, and a fraction if it has a digit. -/
def decimalPiece (c : Char) (rest : List Char) : Piece × Nat :=
  let more := rest.takeWhile Char.isDigit
  let decimals := fraction (rest.drop more.length)
  let digits := c :: more ++ decimals
  let value := Double.ofRatio false (Decimal.natOfDigits 10 digits) (Decimal.tenTo decimals.length)
  (.token .number (some (.number value)),
    more.length + (if decimals.isEmpty then 0 else 1 + decimals.length))

/-- After a first digit. -/
def numberPiece (c : Char) (rest : List Char) : Piece × Nat :=
  match c, rest with
  | '0', 'b' :: more => basePiece 2 isBinaryDigit more
  | '0', 'x' :: more => basePiece 16 isHexDigit more
  | _, _ => decimalPiece c rest

/-- A reserved word or an identifier. -/
def wordPiece (c : Char) (rest : List Char) : Piece × Nat :=
  let more := rest.takeWhile isWordChar
  plain (Kind.ofWord (String.ofList (c :: more))) more.length

/-- The piece that begins with `c` and how many of the characters after `c` belong to it. -/
def classify (c : Char) (rest : List Char) : Piece × Nat :=
  match c with
  | '(' => plain .leftParen 0
  | ')' => plain .rightParen 0
  | '{' => plain .leftBrace 0
  | '}' => plain .rightBrace 0
  | '[' => plain .leftSquare 0
  | ']' => plain .rightSquare 0
  | ',' => plain .comma 0
  | '.' => plain .dot 0
  | ';' => plain .semicolon 0
  | '?' => plain .question 0
  | ':' => plain .colon 0
  | '+' => withEqual .plus .plusEqual rest
  | '-' => withEqual .minus .minusEqual rest
  | '*' => withEqual .star .starEqual rest
  | '^' => withEqual .caret .caretEqual rest
  | '!' => withEqual .bang .bangEqual rest
  | '=' => withEqual .equal .equalEqual rest
  | '>' => withEqual .greater .greaterEqual rest
  | '<' => lesserPiece rest
  | '/' => slashPiece rest
  | ' ' => (.blank, 0)
  | '\r' => (.blank, 0)
  | '\t' => (.blank, 0)
  | '\n' => (.blank, 0)
  | '"' => stringPiece '"' rest
  | '\'' => stringPiece '\'' rest
  | _ =>
    if c.isDigit then numberPiece c rest
    else if isLetter c then wordPiece c rest
    else (.fault .unexpectedCharacter, 0)

/-! ## Cutting -/

/-- A piece with the text it covers. -/
structure Fragment where
  piece : Piece
  text : List Char
deriving DecidableEq

/-- The fragments of a text of which the first `skip` characters belong to an earlier one. -/
def cut : Nat → List Char → List Fragment
  | _, [] => []
  | skip + 1, _ :: rest => cut skip rest
  | 0, c :: rest =>
    let found := classify c rest
    ⟨found.1, c :: rest.take found.2⟩ :: cut found.2 rest

/-- The fragments of a text, in order. -/
def fragments (source : List Char) : List Fragment := cut 0 source

/-! ## Lines -/

/-- How many lines a text ends. -/
def lineBreaks (text : List Char) : Nat := text.count '\n'

/-- Each fragment with the line it ends on, when `line` is the line the first one starts on. -/
def numbered : Nat → List Fragment → List (Fragment × Nat)
  | _, [] => []
  | line, f :: rest =>
    let lastLine := line + lineBreaks f.text
    (f, lastLine) :: numbered lastLine rest

/-- The token of a fragment on that line, if it is one. -/
def tokenOf? : Fragment × Nat → Option Token
  | (⟨.token kind literal, text⟩, line) => some ⟨kind, String.ofList text, literal, line⟩
  | _ => none

/-- The diagnostic of a fragment on that line, if it is faulty. -/
def faultOf? : Fragment × Nat → Option Diagnostic
  | (⟨.fault complaint, _⟩, line) => some ⟨line, .line, complaint⟩
  | _ => none

end Scan

/-- A scanned script. -/
structure Scan where
  /-- The tokens in order. -/
  tokens : List Token
  /-- The line on which the script ends. -/
  endLine : Nat
  /-- The complaints about faulty fragments, in order. -/
  faults : List Diagnostic

/-- Scans a source text. -/
def Scan.ofSource (source : String) : Scan :=
  let pieces := Scan.numbered 1 (Scan.fragments source.toList)
  { tokens := pieces.filterMap Scan.tokenOf?
    endLine := 1 + Scan.lineBreaks source.toList
    faults := pieces.filterMap Scan.faultOf? }

end KScript

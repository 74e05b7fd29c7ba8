import KScript.Syntax

/-!
# Reading tokens

A parser works on a `Cursor`: the tokens that are left, the line on which the script ends, and the
complaints made so far.  It either answers or gives up; in both cases the cursor stays where it is, so
that whoever recovers goes on from there.
-/

namespace KScript

/-- Where a parser stands. -/
structure Cursor where
  rest : List Token
  endLine : Nat
  reports : List Diagnostic

/-- Why a parser gave up: it has met, and reported, an error in the grammar. -/
inductive Abort where
  | syntaxError
deriving DecidableEq

abbrev Parser := EStateM Abort Cursor

namespace Parser

/-- The next token, which stays. -/
def peek? : Parser (Option Token) := fun c => .ok c.rest.head? c

/-- Whether all tokens are read. -/
def atEnd : Parser Bool := fun c => .ok c.rest.isEmpty c

/-- Whether the next token is of that kind. -/
def nextIs (kind : Kind) : Parser Bool := fun c =>
  match c.rest with
  | [] => .ok false c
  | t :: _ => .ok (t.kind = kind) c

/-- Steps over the next token. -/
def advance : Parser Unit := fun c => .ok () { c with rest := c.rest.tail }

/-- Complains about a token, or about the end of the script. -/
def report (token : Option Token) (complaint : Complaint) : Parser Unit := fun c =>
  let diagnostic : Diagnostic :=
    match token with
    | some t => .atToken t complaint
    | none => ⟨c.endLine, .atEnd, complaint⟩
  .ok () { c with reports := c.reports ++ [diagnostic] }

/-- Complains about a token, or about the end of the script, and gives up. -/
def fail {α : Type} (token : Option Token) (complaint : Complaint) : Parser α := do
  report token complaint
  throw .syntaxError

/-- Complains that something else should come next, and gives up. -/
def missing {α : Type} (what : Expected) : Parser α := do
  fail (← peek?) (.missing what)

/-- Reads the next token if it is of one of these kinds. -/
def accept? (kinds : List Kind) : Parser (Option Token) := fun c =>
  match c.rest with
  | [] => .ok none c
  | t :: rest => if t.kind ∈ kinds then .ok (some t) { c with rest } else .ok none c

/-- Reads a token of that kind, or complains that it is missing. -/
def expect (kind : Kind) (what : Expected) : Parser Token := do
  match ← accept? [kind] with
  | some t => return t
  | none => missing what

/--
Reads items with commas between them; `count` of them have been read before.  Every item beyond the
limit of the listing is complained about at its first token, and read all the same.
-/
def commaSeparated {α : Type} (listing : Listing) (item : Parser α) : Nat → Nat → Parser (List α)
  | 0, _ => throw .syntaxError
  | fuel + 1, count => do
    if Listing.limit ≤ count then
      report (← peek?) (.tooMany listing)
    let first ← item
    match ← accept? [.comma] with
    | some _ => return first :: (← commaSeparated listing item fuel (count + 1))
    | none => return [first]

/-- Reads items with commas between them up to a closing token; there may be none. -/
def listUpTo {α : Type} (listing : Listing) (close : Kind) (fuel : Nat) (item : Parser α) :
    Parser (List α) := do
  if ← nextIs close then return []
  commaSeparated listing item fuel 0

end Parser

end KScript

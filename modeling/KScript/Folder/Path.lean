/-!
# Paths

A path leads to a file by steps with slashes between them.  An empty step and the step `.` lead
nowhere, so they are left out wherever they stand: `./a`, `a//` and `a/.` are all the path `a`.  The
step `..` stays, since where it leads depends on what is there.
-/

namespace KScript.Folder

/-- A path: how many slashes it begins with, and its steps. -/
structure Path where
  slashes : Nat
  steps : List String
deriving DecidableEq

namespace Path

/-- The pieces of a text between its slashes. -/
def pieces : List Char → List (List Char)
  | [] => [[]]
  | c :: rest =>
    if c = '/' then [] :: pieces rest
    else
      match pieces rest with
      | [] => [[c]]
      | piece :: more => (c :: piece) :: more

/-- Whether a piece leads somewhere. -/
def leadsOn (piece : List Char) : Bool := !piece.isEmpty && piece != ['.']

/-- The slashes that count at the start of a path: two stay two, and more are as good as one. -/
def leadingSlashes (chars : List Char) : Nat :=
  match (chars.takeWhile (· == '/')).length with
  | 0 => 0
  | 2 => 2
  | _ => 1

/-- Reads a path. -/
def ofString (text : String) : Path :=
  ⟨leadingSlashes text.toList, ((pieces text.toList).filter leadsOn).map String.ofList⟩

/-- The text of a path; that of the path without steps is `.`. -/
def text (p : Path) : String :=
  if p.slashes = 0 ∧ p.steps = [] then "."
  else String.ofList (List.replicate p.slashes '/') ++ "/".intercalate p.steps

end Path

end KScript.Folder

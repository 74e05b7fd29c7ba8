import KScript.Number.Layout
import KScript.Text.Quoted
import KScript.Token

/-!
# Literal values as text

Scripts see literal values plainly (`display`); listings of tokens and debug lines show them in detail,
with quotes around strings where they would be mistaken for something else (`detailed`).
-/

namespace KScript

/-- The text of a value as scripts see it. -/
def Literal.display : Literal → String
  | .zilch => "zilch"
  | .bool true => "True"
  | .bool false => "False"
  | .number x => Layout.display.text x
  | .string s => s

/-- The text of a value in debug lines. -/
def Literal.detailed : Literal → String
  | .zilch => "None"
  | .bool true => "True"
  | .bool false => "False"
  | .number x => Layout.detailed.text x
  | .string s => Text.quoted s

/-- A token in words: its kind, its lexeme and its value, if it has one. -/
def Token.describe (t : Token) : String :=
  t.kind.name ++ " " ++ t.lexeme ++ " " ++
    match t.literal with
    | none => ""
    | some (.string s) => s
    | some value => value.detailed

end KScript

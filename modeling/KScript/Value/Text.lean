import KScript.Text.Literal
import KScript.Value

/-!
# Values as text

Scripts see values by `display`.  Debug lines show arguments in detail, with strings quoted and objects
with the names of their fields, and results by `result`, with strings and objects plain.
-/

namespace KScript

namespace Value

mutual

/-- The text of a value as scripts see it. -/
def display : Value → String
  | .scalar literal => literal.display
  | .array _ items => "[" ++ ", ".intercalate (displayAll items) ++ "]"
  | .native _ => "<native sub>"
  | .routine c => "<sub " ++ c.decl.name.lexeme ++ ">"
  | .classValue c => "<" ++ c.name ++ " class>"
  | .object o => "<" ++ o.cls.name ++ " instance>"

/-- The texts of values, in order. -/
def displayAll : List Value → List String
  | [] => []
  | v :: rest => display v :: displayAll rest

end

mutual

/-- A value in detail; `fields` gives the names of the fields of an object. -/
def detailed (fields : Nat → List String) : Value → String
  | .scalar literal => literal.detailed
  | .array _ items => "[" ++ ", ".intercalate (detailedAll fields items) ++ "]"
  | .native n =>
    "<NativeSubroutine " ++ n.name ++ " arity="
      ++ (match n.arity with
        | some k => toString k
        | none => "-1") ++ ">"
  | .routine c =>
    "<KSharpSubroutine " ++ c.decl.name.lexeme ++ " arity=" ++ toString c.decl.params.length ++ ">"
  | .classValue c =>
    "<KSharpClass " ++ c.name
      ++ (match c.ancestors with
        | [] => ""
        | parent :: _ => " <- " ++ parent.name) ++ ">"
  | .object o =>
    "<KSharpInstance of " ++ o.cls.name ++ " fields=["
      ++ ", ".intercalate (fields o.ident) ++ "]>"

/-- Values in detail, in order. -/
def detailedAll (fields : Nat → List String) : List Value → List String
  | [] => []
  | v :: rest => detailed fields v :: detailedAll fields rest

end

/-- A list of values in detail. -/
def detailedList (fields : Nat → List String) (values : List Value) : String :=
  "[" ++ ", ".intercalate (detailedAll fields values) ++ "]"

/-- The result of a call in a debug line. -/
def result (fields : Nat → List String) : Value → String
  | .text s => s
  | .scalar literal => literal.detailed
  | .array ident items => detailed fields (.array ident items)
  | v => v.display

end Value

end KScript

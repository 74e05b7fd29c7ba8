import KScript.Dump.Json
import KScript.Dump.Yaml

/-!
# Dumps of programs

The formats in which a program can be dumped, and how they are chosen by name.
-/

namespace KScript.Dump

/-- The formats of dumps. -/
inductive Format where
  | yaml
  | json
deriving DecidableEq

/-- The format of that exact name. -/
def Format.ofName? : String → Option Format
  | "yaml" => some .yaml
  | "json" => some .json
  | _ => none

/-- There is no format of that name; `none` stands for no name at all. -/
structure UnknownFormat where
  name : Option String

def UnknownFormat.message (e : UnknownFormat) : String :=
  "Unsupported serialization format: " ++ (e.name.map Text.quoted).getD "None"

/-- A program as text. -/
def text {β : Type} (format : Format) (program : Program β) : String :=
  match format with
  | .yaml => Yaml.document (.ofProgram program)
  | .json => Json.text 0 (.ofProgram program)

/-- A program as text in the format of that name, in any case. -/
def textAs {β : Type} (name : Option String) (program : Program β) : Except UnknownFormat String :=
  match name.bind fun n => Format.ofName? n.toLower with
  | some format => .ok (text format program)
  | none => .error ⟨name⟩

end KScript.Dump

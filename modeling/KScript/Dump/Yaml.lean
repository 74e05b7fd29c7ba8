import KScript.Dump.Data
import KScript.Dump.Yaml.Scalar
import KScript.Number.Layout

/-!
# Data as YAML

In block style: a field is on a line of its own, a record inside of a record is two columns further
in, and the dashes of a list stand under the name of its field.
-/

namespace KScript.Yaml

/-- How YAML writes numbers that are not integers. -/
def numberLayout : Layout :=
  { Layout.detailed with
    pointInScientific := true
    positiveInfinity := ".inf"
    negativeInfinity := "-.inf"
    nan := ".nan" }

/-- So many spaces. -/
def spaces (count : Nat) : String := String.ofList (List.replicate count ' ')

mutual

/-- Data on the line of its dash, which is at `indent`. -/
def itemText (indent : Nat) : Data → String
  | .null => "null\n"
  | .bool true => "true\n"
  | .bool false => "false\n"
  | .integer n => toString n ++ "\n"
  | .float x => numberLayout.text x ++ "\n"
  | .text s => stringText (indent + 2) (indent + 2) s ++ "\n"
  | .list [] => "[]\n"
  | .list (d :: rest) => (spaces (indent + 2)).intercalate (itemTexts (indent + 2) (d :: rest))
  | .record [] => "\x7b\x7d\n"
  | .record (f :: rest) => (spaces (indent + 2)).intercalate (fieldTexts (indent + 2) (f :: rest))

/-- The items of a list whose dashes are at `indent`, without the indent. -/
def itemTexts (indent : Nat) : List Data → List String
  | [] => []
  | d :: rest => ("- " ++ itemText indent d) :: itemTexts indent rest

/-- Data after the name of its field, which begins at `indent` and ends at `column`. -/
def valueText (indent column : Nat) : Data → String
  | .null => " null\n"
  | .bool true => " true\n"
  | .bool false => " false\n"
  | .integer n => " " ++ toString n ++ "\n"
  | .float x => " " ++ numberLayout.text x ++ "\n"
  | .text s => " " ++ stringText (indent + 2) (column + 1) s ++ "\n"
  | .list [] => " []\n"
  | .list (d :: rest) =>
    "\n" ++ spaces indent ++ (spaces indent).intercalate (itemTexts indent (d :: rest))
  | .record [] => " \x7b\x7d\n"
  | .record (f :: rest) =>
    "\n" ++ spaces (indent + 2)
      ++ (spaces (indent + 2)).intercalate (fieldTexts (indent + 2) (f :: rest))

/-- The fields of a record at `indent`, without the indent. -/
def fieldTexts (indent : Nat) : List (String × Data) → List String
  | [] => []
  | (name, d) :: rest =>
    (name ++ ":" ++ valueText indent (indent + name.length + 1) d) :: fieldTexts indent rest

end

/-- Data as a YAML document. -/
def document : Data → String
  | .list [] => "[]\n"
  | .list (d :: rest) => String.join (itemTexts 0 (d :: rest))
  | d => itemText 0 d

end KScript.Yaml

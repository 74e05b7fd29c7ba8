import KScript.Folder.Path

/-!
# Folders

The files that a program finds where it is started.  Following a path goes step by step from there:
every step but the last has to end in a folder, and `..` leads one folder up, also out of the one the
program was started in.  Nothing is known of what lies outside, except that it is made of folders.
-/

namespace KScript

/-- Why something that is there, or cannot be there, is not read. -/
inductive Folder.Refusal where
  /-- The path leads to a folder. -/
  | isFolder
  /-- The path goes on after a file. -/
  | beyondFile
  | nameTooLong
  /-- The path has a character that no name can have. -/
  | nullCharacter
  | other
deriving DecidableEq

/-- What comes of reading a file. -/
inductive Folder.Reading where
  | text (content : String)
  | missing
  | refused (why : Folder.Refusal)
deriving DecidableEq

/-- The files in a folder and in the folders below it, each with the steps that lead to it. -/
structure Folder where
  files : List (List String × String)

namespace Folder

/-- The folder with the files that these paths name. -/
def ofFiles (files : List (String × String)) : Folder :=
  ⟨files.map fun file => ((Path.ofString file.1).steps, file.2)⟩

/-- Where following a path has come to. -/
inductive Place where
  /-- These steps down from the start. -/
  | below (steps : List String)
  /-- A folder outside. -/
  | outside

/-- What stands at a place. -/
inductive Entry where
  | file (content : String)
  | folder
  | nothing

/-- What stands at a place: a file, or a folder if there is a file further down. -/
def entry (f : Folder) : Place → Entry
  | .outside => .folder
  | .below steps =>
    match f.files.lookup steps with
    | some content => .file content
    | none =>
      if steps.isEmpty || f.files.any (fun file => steps.isPrefixOf file.1) then .folder
      else .nothing

/-- One step down. -/
def Place.down (step : String) : Place → Option Place
  | .below steps => some (.below (steps ++ [step]))
  | .outside => none

/-- One step up. -/
def Place.up : Place → Place
  | .below [] => .outside
  | .below steps => .below steps.dropLast
  | .outside => .outside

/-- The longest name of a file, in bytes. -/
def nameLimit : Nat := 255

/-- The longest path, in bytes. -/
def pathLimit : Nat := 4095

/-- Follows steps from a place. -/
def follow (f : Folder) (place : Place) : List String → Reading
  | [] =>
    match f.entry place with
    | .file content => .text content
    | .folder => .refused .isFolder
    | .nothing => .missing
  | step :: rest =>
    match f.entry place with
    | .file _ => .refused .beyondFile
    | .nothing => .missing
    | .folder =>
      if step = ".." then f.follow place.up rest
      else if nameLimit < step.utf8ByteSize then .refused .nameTooLong
      else
        match place.down step with
        | some next => f.follow next rest
        | none => .missing

/-- Reads the file at a path. -/
def read (f : Folder) (path : Path) : Reading :=
  if path.text.contains '\x00' then .refused .nullCharacter
  else if pathLimit < path.text.utf8ByteSize then .refused .nameTooLong
  else f.follow (if path.slashes = 0 then .below [] else .outside) path.steps

end Folder

end KScript

import KScript.Syntax
import KScript.Table

/-!
# Scopes

The names that are visible at a place in a program.  A scope maps the names declared so far to whether
their value is ready; `Scopes` stacks them, innermost first, and the top level of a script is no scope.
A reference is bound in the nearest scope that has its name, and its depth counts the scopes in
between.
-/

namespace KScript

/-- The names of one scope, each with whether its value is ready. -/
abbrev Scope := Table Bool

/-- The scopes around a place, innermost first. -/
abbrev Scopes := List Scope

namespace Scopes

/-- How many scopes out a name is bound; `none` where no scope has it. -/
def depth (scopes : Scopes) (name : String) : Depth := scopes.findIdx? (·.contains name)

/-- Whether the innermost scope has the name already. -/
def declares (scopes : Scopes) (name : String) : Bool :=
  match scopes with
  | [] => false
  | inner :: _ => inner.contains name

/-- Whether the name is declared in the innermost scope and its value is not ready. -/
def isPending (scopes : Scopes) (name : String) : Bool :=
  match scopes with
  | [] => false
  | inner :: _ => inner.find? name = some false

/-- Declares a name in the innermost scope; a name that is there stays as it is. -/
def declare (scopes : Scopes) (name : String) : Scopes :=
  match scopes with
  | [] => []
  | inner :: outer => (if inner.contains name then inner else inner.insert name false) :: outer

/-- Marks a name of the innermost scope as ready. -/
def define (scopes : Scopes) (name : String) : Scopes :=
  match scopes with
  | [] => []
  | inner :: outer => inner.insert name true :: outer

/-- The scopes inside a new, empty one. -/
def enter (scopes : Scopes) : Scopes := Table.empty :: scopes

/-- The scopes inside a new one in which one name is ready. -/
def enterWith (scopes : Scopes) (name : String) : Scopes := Table.singleton name true :: scopes

/-- Declares names that are ready at once, one after the other. -/
def defineAll (scopes : Scopes) (names : List Token) : Scopes :=
  names.foldl (fun s name => (s.declare name.lexeme).define name.lexeme) scopes

end Scopes

/-- The kinds of body that a statement can be in. -/
inductive BodyKind where
  | none
  | subroutine
  | constructor
  | method
  | staticMethod
deriving DecidableEq

/-- The kinds of class that a statement can be in. -/
inductive ClassKind where
  | none
  | base
  | derived
deriving DecidableEq

namespace Scope

/-- What surrounds a place in a program. -/
structure Context where
  scopes : Scopes
  body : BodyKind
  enclosing : ClassKind

/-- The top level of a script. -/
def topLevel : Context := ⟨[], .none, .none⟩

/-- The name under which the superclass is bound. -/
def superName : String := "super"

/-- The name under which the receiver is bound. -/
def thisName : String := "this"

namespace Context

/-- Inside a new scope. -/
def enter (c : Context) : Context := { c with scopes := c.scopes.enter }

/-- While the initial value of a variable is worked out. -/
def declare (c : Context) (name : Token) : Context :=
  { c with scopes := c.scopes.declare name.lexeme }

/-- Once a declared name is ready. -/
def define (c : Context) (name : Token) : Context :=
  { c with scopes := c.scopes.define name.lexeme }

/-- Once a name is declared and ready. -/
def bind (c : Context) (name : Token) : Context := (c.declare name).define name

/-- After a statement.  The grammar has declarations only where statements are listed. -/
def after {β : Type} (c : Context) : Stmt β → Context
  | .var name _ => c.bind name
  | .routine decl => c.bind decl.name
  | .classDecl name _ _ _ _ _ => c.bind name
  | _ => c

/-- After the first clause of a `for` loop. -/
def afterStart {β : Type} (c : Context) : Option (ForStart β) → Context
  | some (.var name _) => c.bind name
  | _ => c

/-- In the body of a routine: its parameters and its body share one scope. -/
def inRoutine (c : Context) (body : BodyKind) (params : List Token) : Context :=
  { c with scopes := c.scopes.enter.defineAll params, body }

/-- Around the routines of a class, where the superclass is bound if there is one. -/
def inClass {β : Type} (c : Context) : Option (Reference β) → Context
  | none => { c with enclosing := .base }
  | some _ => { c with scopes := c.scopes.enterWith superName, enclosing := .derived }

/-- Around the routines that have a receiver. -/
def withReceiver (c : Context) : Context := { c with scopes := c.scopes.enterWith thisName }

/-- Whether a receiver is bound anywhere around. -/
def hasReceiver (c : Context) : Bool := c.scopes.any (·.contains thisName)

end Context

/-- The kind of body of a method in a class. -/
def methodKind (name : Token) : BodyKind :=
  if name.lexeme = constructorName then .constructor else .method

end Scope

end KScript

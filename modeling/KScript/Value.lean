import KScript.Env
import KScript.Syntax

/-!
# Values

What expressions evaluate to.  Literal values are known by what they are; arrays, routines, classes and
objects are known by the event that made them, which has a number (`ident`).  A class holds its own
layer and those of its ancestors, nearest first, so it never changes and its lineage is finite.
-/

namespace KScript

/-- The routines that every session starts with. -/
inductive Native where
  | clock
  | input
  | print
  | round
  | snooze
  | sqrt
  | string
deriving DecidableEq

namespace Native

/-- All native routines, by name. -/
def all : List Native := [clock, input, print, round, snooze, sqrt, string]

def name : Native → String
  | clock => "clock"
  | input => "input"
  | print => "print"
  | round => "round"
  | snooze => "snooze"
  | sqrt => "sqrt"
  | string => "string"

/-- How many arguments a native routine takes; `none` for any number. -/
def arity : Native → Option Nat
  | clock => some 0
  | input => none
  | print => none
  | round => none
  | snooze => some 1
  | sqrt => some 1
  | string => some 1

end Native

/-- A routine with the environment it was declared in. -/
structure Closure where
  ident : Nat
  decl : Routine (Stmt Depth)
  env : Env
  /-- Whether it makes an object ready, and so gives that object back. -/
  isConstructor : Bool

/-- What one class declaration brings along. -/
structure Layer where
  ident : Nat
  name : String
  methods : Table Closure
  statics : Table Closure
  getters : Table Closure
  setters : Table Closure

/-- A class: its own layer and those of its ancestors, nearest first. -/
structure ClassValue where
  own : Layer
  ancestors : List Layer

namespace ClassValue

/-- The layers of a class, its own first. -/
def lineage (c : ClassValue) : List Layer := c.own :: c.ancestors

def name (c : ClassValue) : String := c.own.name

/-- The method of that name in the nearest layer that has one. -/
def method? (c : ClassValue) (name : String) : Option Closure :=
  c.lineage.findSome? (·.methods.find? name)

def static? (c : ClassValue) (name : String) : Option Closure :=
  c.lineage.findSome? (·.statics.find? name)

def getter? (c : ClassValue) (name : String) : Option Closure :=
  c.lineage.findSome? (·.getters.find? name)

def setter? (c : ClassValue) (name : String) : Option Closure :=
  c.lineage.findSome? (·.setters.find? name)

/-- The method that makes a new object ready. -/
def constructor? (c : ClassValue) : Option Closure := c.method? constructorName

end ClassValue

/-- An object: its number, under which its fields are kept, and its class. -/
structure Object where
  ident : Nat
  cls : ClassValue

/-- Values. -/
inductive Value where
  | scalar (literal : Literal)
  | array (ident : Nat) (items : List Value)
  | native (native : Native)
  | routine (closure : Closure)
  | classValue (cls : ClassValue)
  | object (object : Object)

instance : Inhabited Value := ⟨.scalar .zilch⟩

/-- Whether two literal values are equal: of one kind, and the same; NaN differs from itself. -/
def Literal.same : Literal → Literal → Bool
  | .zilch, .zilch => true
  | .bool a, .bool b => a == b
  | .number a, .number b => a == b
  | .string a, .string b => a == b
  | _, _ => false

namespace Value

/-- The value that stands for no value. -/
@[match_pattern] abbrev zilch : Value := .scalar .zilch

@[match_pattern] abbrev bool (b : Bool) : Value := .scalar (.bool b)

@[match_pattern] abbrev number (x : Float) : Value := .scalar (.number x)

@[match_pattern] abbrev text (s : String) : Value := .scalar (.string s)

/-- All values but `zilch` and `false` count as true. -/
def isTruthy : Value → Bool
  | .zilch => false
  | .bool b => b
  | _ => true

/-- Whether two values are equal: the same literal value, or made by the same event. -/
def same : Value → Value → Bool
  | .scalar a, .scalar b => a.same b
  | .array a _, .array b _ => a == b
  | .native a, .native b => a == b
  | .routine a, .routine b => a.ident == b.ident
  | .classValue a, .classValue b => a.own.ident == b.own.ident
  | .object a, .object b => a.ident == b.ident
  | _, _ => false

/-- The name of the type of a value. -/
def typeName : Value → String
  | .zilch => "zilch"
  | .bool _ => "bool"
  | .number _ => "number"
  | .text _ => "string"
  | .array _ _ => "array"
  | .native _ => "native"
  | .routine _ => "sub"
  | .classValue _ => "class"
  | .object _ => "instance"

end Value

/-- What can be called. -/
inductive Callable where
  | native (native : Native)
  | routine (closure : Closure)
  | classValue (cls : ClassValue)

namespace Callable

/-- The callable that a value is, if it is one. -/
def ofValue? : Value → Option Callable
  | .native n => some (.native n)
  | .routine c => some (.routine c)
  | .classValue c => some (.classValue c)
  | _ => none

/-- How many arguments a call takes; `none` for any number. -/
def arity : Callable → Option Nat
  | .native n => n.arity
  | .routine c => some c.decl.params.length
  | .classValue c =>
    match c.constructor? with
    | none => some 0
    | some closure => some closure.decl.params.length

/-- The name under which a call is listed. -/
def name : Callable → String
  | .native n => n.name
  | .routine c => c.decl.name.lexeme
  | .classValue c => c.name

end Callable

end KScript

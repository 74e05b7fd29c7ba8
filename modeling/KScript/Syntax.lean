import KScript.Diagnostic

/-!
# Syntax trees

Expressions and statements of K#.  A tree is indexed by what it knows about its references: nothing
(`Unit`) as it comes from the parser, and how many scopes out each reference is bound (`Depth`) once
its names are resolved.  Only resolved trees can run.

Tokens stay in the tree where a message or a dump needs their text or their line.
-/

namespace KScript

/-- How many scopes out a reference is bound; `none` for a reference to the global scope. -/
abbrev Depth := Option Nat

/-- A use of a name, with what is known about its binding. -/
structure Reference (β : Type) where
  name : Token
  bound : β
deriving Inhabited

/-- Expressions. -/
inductive Expr (β : Type) where
  | literal (value : Literal)
  /-- `[a, b]`: a new array at each evaluation. -/
  | array (items : List (Expr β))
  | grouping (inner : Expr β)
  | unary (op : Token) (operand : Expr β)
  | binary (left : Expr β) (op : Token) (right : Expr β)
  /-- `and` and `or`, which may leave out their right operand. -/
  | logical (left : Expr β) (op : Token) (right : Expr β)
  | conditional (condition yes no : Expr β)
  | variable (ref : Reference β)
  | assign (ref : Reference β) (value : Expr β)
  /-- `inc x` and `dec x`. -/
  | step (direction : Direction) (ref : Reference β)
  | call (callee : Expr β) (paren : Token) (args : List (Expr β))
  /-- `object.name`; `inside` says whether it is written in a class body. -/
  | get (object : Expr β) (name : Token) (inside : Bool)
  | set (object : Expr β) (name : Token) (value : Expr β) (inside : Bool)
  | receiver (ref : Reference β)
  | inherited (ref : Reference β) (method : Token)
deriving Inhabited

/-- A named routine: parameters and a body of statements `σ`. -/
structure Routine (σ : Type) where
  name : Token
  params : List Token
  body : List σ

/-- What a `for` loop starts with. -/
inductive ForStart (β : Type) where
  | var (name : Token) (value : Option (Expr β))
  | expr (e : Expr β)

/-- Statements. -/
inductive Stmt (β : Type) where
  | expr (e : Expr β)
  /-- Writes the value of an expression: a lone expression typed into a session. -/
  | echo (e : Expr β)
  | var (name : Token) (value : Option (Expr β))
  | block (body : List (Stmt β))
  | exit (keyword : Token) (code : Expr β)
  | branch (condition : Expr β) (yes : Stmt β) (no : Option (Stmt β))
  | loop (condition : Expr β) (body : Stmt β)
  | forLoop (start : Option (ForStart β)) (condition : Expr β) (after : Option (Expr β))
      (body : Stmt β)
  | step (direction : Direction) (ref : Reference β)
  | jump (jump : Jump) (keyword : Token)
  | routine (decl : Routine (Stmt β))
  | giveBack (keyword : Token) (value : Option (Expr β))
  | classDecl (name : Token) (superclass : Option (Reference β))
      (methods statics getters setters : List (Routine (Stmt β)))

/-- The statement that a `for` loop starts with. -/
def ForStart.toStmt {β : Type} : ForStart β → Stmt β
  | .var name value => .var name value
  | .expr e => .expr e

/-- A program is a list of statements. -/
abbrev Program (β : Type) := List (Stmt β)

/-- The name of the method that makes a new object ready. -/
def constructorName : String := "construct"

end KScript

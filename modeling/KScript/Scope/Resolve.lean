import KScript.Scope

/-!
# Resolving names

`resolve` writes the depth of its binding into every reference of a program.  Expressions declare
nothing and a statement declares at most its own name, so the scopes at every place are known from the
statements before it and the depth of a reference is a lookup in them.
-/

namespace KScript

open Scope

/-- The depth of a name. -/
def Reference.resolve (ref : Reference Unit) (c : Context) : Reference Depth :=
  ⟨ref.name, c.scopes.depth ref.name.lexeme⟩

/-- The depth of the receiver, which is not looked up where there can be none. -/
def Reference.resolveReceiver (ref : Reference Unit) (c : Context) : Reference Depth :=
  if c.enclosing = .none ∨ c.body = .staticMethod then ⟨ref.name, none⟩ else ref.resolve c

mutual

/-- An expression with the depths of its references. -/
def Expr.resolve (c : Context) : Expr Unit → Expr Depth
  | .literal value => .literal value
  | .array items => .array (Expr.resolveAll c items)
  | .grouping inner => .grouping (inner.resolve c)
  | .unary op operand => .unary op (operand.resolve c)
  | .binary left op right => .binary (left.resolve c) op (right.resolve c)
  | .logical left op right => .logical (left.resolve c) op (right.resolve c)
  | .conditional condition yes no =>
    .conditional (condition.resolve c) (yes.resolve c) (no.resolve c)
  | .variable ref => .variable (ref.resolve c)
  | .assign ref value => .assign (ref.resolve c) (value.resolve c)
  | .step direction ref => .step direction (ref.resolve c)
  | .call callee paren args => .call (callee.resolve c) paren (Expr.resolveAll c args)
  | .get object name inside => .get (object.resolve c) name inside
  | .set object name value inside => .set (object.resolve c) name (value.resolve c) inside
  | .receiver ref => .receiver (ref.resolveReceiver c)
  | .inherited ref method => .inherited (ref.resolve c) method

/-- Expressions with the depths of their references. -/
def Expr.resolveAll (c : Context) : List (Expr Unit) → List (Expr Depth)
  | [] => []
  | e :: rest => e.resolve c :: Expr.resolveAll c rest

end

/-- The first clause of a `for` loop with the depths of its references. -/
def ForStart.resolve (c : Context) : ForStart Unit → ForStart Depth
  | .var name value => .var name (value.map (Expr.resolve (c.declare name)))
  | .expr e => .expr (e.resolve c)

mutual

/-- A statement with the depths of its references. -/
def Stmt.resolve (c : Context) : Stmt Unit → Stmt Depth
  | .expr e => .expr (e.resolve c)
  | .echo e => .echo (e.resolve c)
  | .var name value => .var name (value.map (Expr.resolve (c.declare name)))
  | .block body => .block (Stmt.resolveAll c.enter body)
  | .exit keyword code => .exit keyword (code.resolve c)
  | .branch condition yes no =>
    .branch (condition.resolve c) (yes.resolve c) (Stmt.resolveOption c no)
  | .loop condition body => .loop (condition.resolve c) (body.resolve c)
  | .forLoop start condition after body =>
    let inner := c.enter.afterStart start
    .forLoop (start.map (ForStart.resolve c.enter)) (condition.resolve inner)
      (after.map (Expr.resolve inner)) (body.resolve inner)
  | .step direction ref => .step direction (ref.resolve c)
  | .jump kind keyword => .jump kind keyword
  | .routine ⟨name, params, body⟩ =>
    .routine ⟨name, params, Stmt.resolveAll ((c.bind name).inRoutine .subroutine params) body⟩
  | .giveBack keyword value => .giveBack keyword (value.map (Expr.resolve c))
  | .classDecl name superclass methods statics getters setters =>
    let outer := c.bind name
    let inner := outer.inClass superclass
    .classDecl name (superclass.map (·.resolve outer))
      (Stmt.resolveRoutines inner.withReceiver methodKind methods)
      (Stmt.resolveRoutines inner (fun _ => .staticMethod) statics)
      (Stmt.resolveRoutines inner.withReceiver (fun _ => .method) getters)
      (Stmt.resolveRoutines inner.withReceiver (fun _ => .method) setters)

/-- Statements with the depths of their references, each in the scopes that the ones before it left. -/
def Stmt.resolveAll (c : Context) : List (Stmt Unit) → List (Stmt Depth)
  | [] => []
  | s :: rest => s.resolve c :: Stmt.resolveAll (c.after s) rest

/-- A statement that may be left out. -/
def Stmt.resolveOption (c : Context) : Option (Stmt Unit) → Option (Stmt Depth)
  | none => none
  | some s => some (s.resolve c)

/-- Routines of a class, whose bodies are of the kind that their name tells. -/
def Stmt.resolveRoutines (c : Context) (kind : Token → BodyKind) :
    List (Routine (Stmt Unit)) → List (Routine (Stmt Depth))
  | [] => []
  | ⟨name, params, body⟩ :: rest =>
    ⟨name, params, Stmt.resolveAll (c.inRoutine (kind name) params) body⟩
      :: Stmt.resolveRoutines c kind rest

end

/-- A program with the depths of its references. -/
def Program.resolve (program : Program Unit) : Program Depth := Stmt.resolveAll topLevel program

end KScript

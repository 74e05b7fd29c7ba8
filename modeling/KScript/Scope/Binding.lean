import KScript.Syntax

/-!
# The bindings of a program

The references of a resolved program that are bound in a scope, in the order in which they are
resolved: an assigned value before the name it is assigned to, a property's new value before its
object, and the static methods of a class after its other methods.
-/

namespace KScript

/-- The forms in which a reference occurs. -/
inductive Site where
  | reading
  | assign
  | stepExpr (direction : Direction)
  | stepStmt (direction : Direction)
  | receiver
  | inherited
deriving DecidableEq

/-- The name of the node in which a reference occurs. -/
def Site.node : Site → String
  | reading => "Variable"
  | assign => "Assign"
  | stepExpr .up => "Inc"
  | stepExpr .down => "Dec"
  | stepStmt .up => "IncStmt"
  | stepStmt .down => "DecStmt"
  | receiver => "This"
  | inherited => "Super"

/-- A reference that is bound in a scope. -/
structure Binding where
  site : Site
  name : Token
  depth : Nat

/-- The binding of a reference, if it is bound in a scope. -/
def Reference.binding (ref : Reference Depth) (site : Site) : List Binding :=
  match ref.bound with
  | none => []
  | some depth => [⟨site, ref.name, depth⟩]

mutual

/-- The bindings of an expression. -/
def Expr.bindings : Expr Depth → List Binding
  | .literal _ => []
  | .array items => Expr.bindingsAll items
  | .grouping inner => inner.bindings
  | .unary _ operand => operand.bindings
  | .binary left _ right => left.bindings ++ right.bindings
  | .logical left _ right => left.bindings ++ right.bindings
  | .conditional condition yes no => condition.bindings ++ yes.bindings ++ no.bindings
  | .variable ref => ref.binding .reading
  | .assign ref value => value.bindings ++ ref.binding .assign
  | .step direction ref => ref.binding (.stepExpr direction)
  | .call callee _ args => callee.bindings ++ Expr.bindingsAll args
  | .get object _ _ => object.bindings
  | .set object _ value _ => value.bindings ++ object.bindings
  | .receiver ref => ref.binding .receiver
  | .inherited ref _ => ref.binding .inherited

/-- The bindings of expressions, in order. -/
def Expr.bindingsAll : List (Expr Depth) → List Binding
  | [] => []
  | e :: rest => e.bindings ++ Expr.bindingsAll rest

end

/-- The bindings of an expression that may be left out. -/
def Expr.bindingsOption : Option (Expr Depth) → List Binding
  | none => []
  | some e => e.bindings

/-- The bindings of the first clause of a `for` loop. -/
def ForStart.bindings : Option (ForStart Depth) → List Binding
  | none => []
  | some (.var _ value) => Expr.bindingsOption value
  | some (.expr e) => e.bindings

mutual

/-- The bindings of a statement. -/
def Stmt.bindings : Stmt Depth → List Binding
  | .expr e => e.bindings
  | .echo e => e.bindings
  | .var _ value => Expr.bindingsOption value
  | .block body => Stmt.bindingsAll body
  | .exit _ code => code.bindings
  | .branch condition yes no => condition.bindings ++ yes.bindings ++ Stmt.bindingsOption no
  | .loop condition body => condition.bindings ++ body.bindings
  | .forLoop start condition after body =>
    ForStart.bindings start ++ condition.bindings ++ Expr.bindingsOption after ++ body.bindings
  | .step direction ref => ref.binding (.stepStmt direction)
  | .jump _ _ => []
  | .routine ⟨_, _, body⟩ => Stmt.bindingsAll body
  | .giveBack _ value => Expr.bindingsOption value
  | .classDecl _ superclass methods statics getters setters =>
    (match superclass with
      | none => []
      | some ref => ref.binding .reading)
      ++ Stmt.bindingsRoutines methods ++ Stmt.bindingsRoutines getters
      ++ Stmt.bindingsRoutines setters ++ Stmt.bindingsRoutines statics

/-- The bindings of statements, in order. -/
def Stmt.bindingsAll : List (Stmt Depth) → List Binding
  | [] => []
  | s :: rest => s.bindings ++ Stmt.bindingsAll rest

/-- The bindings of a statement that may be left out. -/
def Stmt.bindingsOption : Option (Stmt Depth) → List Binding
  | none => []
  | some s => s.bindings

/-- The bindings of routines, in order. -/
def Stmt.bindingsRoutines : List (Routine (Stmt Depth)) → List Binding
  | [] => []
  | ⟨_, _, body⟩ :: rest => Stmt.bindingsAll body ++ Stmt.bindingsRoutines rest

end

/-- The bindings of a program. -/
def Program.bindings (program : Program Depth) : List Binding := Stmt.bindingsAll program

end KScript

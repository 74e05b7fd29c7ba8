import KScript.Scope

/-!
# The rules of scopes

What is wrong with the names of a program: a name declared twice in one scope, a variable read in its
own initial value, and `return`, `this` and `super` where they make no sense.  The complaints come in
the order in which a reader meets them, except that a class is read with its static methods last.
-/

namespace KScript

open Scope

/-- Complains about a token if the rule is broken. -/
def complainWhen (broken : Bool) (token : Token) (complaint : Complaint) : List Diagnostic :=
  if broken then [.atToken token complaint] else []

namespace Scope.Context

/-- A name must not be declared in a scope that has it. -/
def checkNew (c : Context) (name : Token) : List Diagnostic :=
  complainWhen (c.scopes.declares name.lexeme) name .redeclared

/-- A variable must not be read while its initial value is worked out. -/
def checkRead (c : Context) (name : Token) : List Diagnostic :=
  complainWhen (c.scopes.isPending name.lexeme) name .readInInitializer

/-- Parameters must have different names. -/
def checkParams (c : Context) : List Token → List Diagnostic
  | [] => []
  | name :: rest => c.checkNew name ++ (c.bind name).checkParams rest

/-- A receiver needs a class, and a body that is not static. -/
def checkReceiver (c : Context) (keyword : Token) : List Diagnostic :=
  if c.enclosing = .none then [.atToken keyword .thisOutsideClass]
  else complainWhen (c.body = .staticMethod) keyword .thisInStatic

/-- A superclass needs a class that has one, and a receiver somewhere around. -/
def checkInherited (c : Context) (keyword : Token) : List Diagnostic :=
  match c.enclosing with
  | .none => [.atToken keyword .superOutsideClass]
  | .base => [.atToken keyword .superWithoutSuperclass]
  | .derived => complainWhen (!c.hasReceiver) keyword .superInStatic

/-- A value must not be given back from a constructor, nor anything from the top level. -/
def checkReturn (c : Context) (keyword : Token) (hasValue : Bool) : List Diagnostic :=
  complainWhen (c.body = .none) keyword .returnAtTopLevel
    ++ complainWhen (c.body = .constructor && hasValue) keyword .returnFromConstructor

/-- A class must not name itself as its superclass. -/
def checkSuperclass (c : Context) (name : Token) : Option (Reference Unit) → List Diagnostic
  | none => []
  | some ref =>
    complainWhen (ref.name.lexeme = name.lexeme) ref.name .selfInheritance ++ c.checkRead ref.name

end Scope.Context

mutual

/-- The complaints about an expression. -/
def Expr.check (c : Context) : Expr Unit → List Diagnostic
  | .literal _ => []
  | .array items => Expr.checkAll c items
  | .grouping inner => inner.check c
  | .unary _ operand => operand.check c
  | .binary left _ right => left.check c ++ right.check c
  | .logical left _ right => left.check c ++ right.check c
  | .conditional condition yes no => condition.check c ++ yes.check c ++ no.check c
  | .variable ref => c.checkRead ref.name
  | .assign _ value => value.check c
  | .step _ _ => []
  | .call callee _ args => callee.check c ++ Expr.checkAll c args
  | .get object _ _ => object.check c
  | .set object _ value _ => value.check c ++ object.check c
  | .receiver ref => c.checkReceiver ref.name
  | .inherited ref _ => c.checkInherited ref.name

/-- The complaints about expressions, in order. -/
def Expr.checkAll (c : Context) : List (Expr Unit) → List Diagnostic
  | [] => []
  | e :: rest => e.check c ++ Expr.checkAll c rest

end

/-- The complaints about an expression that may be left out. -/
def Expr.checkOption (c : Context) : Option (Expr Unit) → List Diagnostic
  | none => []
  | some e => e.check c

/-- The complaints about the declaration of a variable. -/
def Scope.Context.checkVar (c : Context) (name : Token) (value : Option (Expr Unit)) :
    List Diagnostic :=
  c.checkNew name ++ Expr.checkOption (c.declare name) value

/-- The complaints about the first clause of a `for` loop. -/
def ForStart.check (c : Context) : Option (ForStart Unit) → List Diagnostic
  | none => []
  | some (.var name value) => c.checkVar name value
  | some (.expr e) => e.check c

mutual

/-- The complaints about a statement. -/
def Stmt.check (c : Context) : Stmt Unit → List Diagnostic
  | .expr e => e.check c
  | .echo e => e.check c
  | .var name value => c.checkVar name value
  | .block body => Stmt.checkAll c.enter body
  | .exit _ code => code.check c
  | .branch condition yes no => condition.check c ++ yes.check c ++ Stmt.checkOption c no
  | .loop condition body => condition.check c ++ body.check c
  | .forLoop start condition after body =>
    let inner := c.enter.afterStart start
    ForStart.check c.enter start ++ condition.check inner ++ Expr.checkOption inner after
      ++ body.check inner
  | .step _ _ => []
  | .jump _ _ => []
  | .routine ⟨name, params, body⟩ =>
    let outer := c.bind name
    c.checkNew name ++ outer.enter.checkParams params
      ++ Stmt.checkAll (outer.inRoutine .subroutine params) body
  | .giveBack keyword value =>
    c.checkReturn keyword value.isSome ++ Expr.checkOption c value
  | .classDecl name superclass methods statics getters setters =>
    let outer := c.bind name
    let inner := outer.inClass superclass
    c.checkNew name ++ outer.checkSuperclass name superclass
      ++ Stmt.checkRoutines inner.withReceiver methodKind methods
      ++ Stmt.checkRoutines inner.withReceiver (fun _ => .method) getters
      ++ Stmt.checkRoutines inner.withReceiver (fun _ => .method) setters
      ++ Stmt.checkRoutines inner (fun _ => .staticMethod) statics

/-- The complaints about statements, each in the scopes that the ones before it left. -/
def Stmt.checkAll (c : Context) : List (Stmt Unit) → List Diagnostic
  | [] => []
  | s :: rest => s.check c ++ Stmt.checkAll (c.after s) rest

/-- The complaints about a statement that may be left out. -/
def Stmt.checkOption (c : Context) : Option (Stmt Unit) → List Diagnostic
  | none => []
  | some s => s.check c

/-- The complaints about routines of a class. -/
def Stmt.checkRoutines (c : Context) (kind : Token → BodyKind) :
    List (Routine (Stmt Unit)) → List Diagnostic
  | [] => []
  | ⟨name, params, body⟩ :: rest =>
    c.enter.checkParams params ++ Stmt.checkAll (c.inRoutine (kind name) params) body
      ++ Stmt.checkRoutines c kind rest

end

/-- The complaints about a program. -/
def Program.check (program : Program Unit) : List Diagnostic := Stmt.checkAll topLevel program

end KScript

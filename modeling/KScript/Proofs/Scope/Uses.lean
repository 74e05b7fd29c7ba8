import KScript.Scope.Binding
import KScript.Scope.Check
import KScript.Scope.Resolve
import Mathlib.Tactic.Common

/-!
# Where names are used

`uses` lists the places of a program at which a name is used, each with the context in which the name is
looked up there: the scopes that are open at that place, and the body and the class around it.  The
bindings of the resolved program are the depths of its uses (`Program.bindings_resolve`).

`Admitted` is what the rules of scopes come to at each place of a program that is accepted: the judgement
on which everything about the frames of a run is built.
-/

namespace KScript

open Scope

/-- A place at which a name is used. -/
structure Use where
  /-- What is open around the place. -/
  context : Context
  /-- The form in which the name occurs. -/
  site : Site
  name : Token

namespace Use

/-- How many scopes out the name is bound. -/
def depth (u : Use) : Depth :=
  match u.site with
  | .receiver => ((⟨u.name, ()⟩ : Reference Unit).resolveReceiver u.context).bound
  | _ => u.context.scopes.depth u.name.lexeme

/-- The binding of a use, if its name is bound in a scope. -/
def bindings (u : Use) : List Binding := (⟨u.name, u.depth⟩ : Reference Depth).binding u.site

end Use

mutual

/-- The uses of names in an expression, in the order in which they are resolved. -/
def Expr.uses (c : Context) : Expr Unit → List Use
  | .literal _ => []
  | .array items => Expr.usesAll c items
  | .grouping inner => inner.uses c
  | .unary _ operand => operand.uses c
  | .binary left _ right => left.uses c ++ right.uses c
  | .logical left _ right => left.uses c ++ right.uses c
  | .conditional condition yes no => condition.uses c ++ yes.uses c ++ no.uses c
  | .variable ref => [⟨c, .reading, ref.name⟩]
  | .assign ref value => value.uses c ++ [⟨c, .assign, ref.name⟩]
  | .step direction ref => [⟨c, .stepExpr direction, ref.name⟩]
  | .call callee _ args => callee.uses c ++ Expr.usesAll c args
  | .get object _ _ => object.uses c
  | .set object _ value _ => value.uses c ++ object.uses c
  | .receiver ref => [⟨c, .receiver, ref.name⟩]
  | .inherited ref _ => [⟨c, .inherited, ref.name⟩]

/-- The uses of names in expressions, in order. -/
def Expr.usesAll (c : Context) : List (Expr Unit) → List Use
  | [] => []
  | e :: rest => e.uses c ++ Expr.usesAll c rest

end

/-- The uses of names in an expression that may be left out. -/
def Expr.usesOption (c : Context) : Option (Expr Unit) → List Use
  | none => []
  | some e => e.uses c

/-- The uses of names in the first clause of a `for` loop. -/
def ForStart.uses (c : Context) : Option (ForStart Unit) → List Use
  | none => []
  | some (.var name value) => Expr.usesOption (c.declare name) value
  | some (.expr e) => e.uses c

/-- The use of the name of a superclass. -/
def Reference.usesSuperclass (c : Context) : Option (Reference Unit) → List Use
  | none => []
  | some ref => [⟨c, .reading, ref.name⟩]

mutual

/-- The uses of names in a statement. -/
def Stmt.uses (c : Context) : Stmt Unit → List Use
  | .expr e => e.uses c
  | .echo e => e.uses c
  | .var name value => Expr.usesOption (c.declare name) value
  | .block body => Stmt.usesAll c.enter body
  | .exit _ code => code.uses c
  | .branch condition yes no => condition.uses c ++ yes.uses c ++ Stmt.usesOption c no
  | .loop condition body => condition.uses c ++ body.uses c
  | .forLoop start condition after body =>
    let inner := c.enter.afterStart start
    ForStart.uses c.enter start ++ condition.uses inner ++ Expr.usesOption inner after
      ++ body.uses inner
  | .step direction ref => [⟨c, .stepStmt direction, ref.name⟩]
  | .jump _ _ => []
  | .routine ⟨name, params, body⟩ => Stmt.usesAll ((c.bind name).inRoutine .subroutine params) body
  | .giveBack _ value => Expr.usesOption c value
  | .classDecl name superclass methods statics getters setters =>
    let outer := c.bind name
    let inner := outer.inClass superclass
    Reference.usesSuperclass outer superclass
      ++ Stmt.usesRoutines inner.withReceiver methodKind methods
      ++ Stmt.usesRoutines inner.withReceiver (fun _ => .method) getters
      ++ Stmt.usesRoutines inner.withReceiver (fun _ => .method) setters
      ++ Stmt.usesRoutines inner (fun _ => .staticMethod) statics

/-- The uses of names in statements, each in the scopes that the ones before it left. -/
def Stmt.usesAll (c : Context) : List (Stmt Unit) → List Use
  | [] => []
  | s :: rest => s.uses c ++ Stmt.usesAll (c.after s) rest

/-- The uses of names in a statement that may be left out. -/
def Stmt.usesOption (c : Context) : Option (Stmt Unit) → List Use
  | none => []
  | some s => s.uses c

/-- The uses of names in routines of a class. -/
def Stmt.usesRoutines (c : Context) (kind : Token → BodyKind) :
    List (Routine (Stmt Unit)) → List Use
  | [] => []
  | ⟨name, params, body⟩ :: rest =>
    Stmt.usesAll (c.inRoutine (kind name) params) body ++ Stmt.usesRoutines c kind rest

end

/-- The uses of names in a program. -/
def Program.uses (program : Program Unit) : List Use := Stmt.usesAll topLevel program

/-! ## Uses and bindings -/

lemma Reference.binding_resolve (ref : Reference Unit) (c : Context) (site : Site)
    (h : site ≠ .receiver) :
    (ref.resolve c).binding site = (⟨c, site, ref.name⟩ : Use).bindings := by
  cases site <;> first | rfl | exact absurd rfl h

lemma Reference.binding_resolveReceiver (ref : Reference Unit) (c : Context) :
    (ref.resolveReceiver c).binding .receiver = (⟨c, .receiver, ref.name⟩ : Use).bindings := by
  unfold Reference.resolveReceiver Use.bindings Use.depth Reference.resolveReceiver
  split <;> rfl

mutual

theorem Expr.bindings_resolve (c : Context) : ∀ e : Expr Unit,
    (e.resolve c).bindings = (e.uses c).flatMap Use.bindings
  | .literal _ => rfl
  | .array items => Expr.bindingsAll_resolve c items
  | .grouping inner => Expr.bindings_resolve c inner
  | .unary _ operand => Expr.bindings_resolve c operand
  | .binary left _ right | .logical left _ right => by
      simp [Expr.resolve, Expr.bindings, Expr.uses, Expr.bindings_resolve c left,
        Expr.bindings_resolve c right]
  | .conditional condition yes no => by
      simp [Expr.resolve, Expr.bindings, Expr.uses, Expr.bindings_resolve c condition,
        Expr.bindings_resolve c yes, Expr.bindings_resolve c no]
  | .variable ref => by
      simp [Expr.resolve, Expr.bindings, Expr.uses, ref.binding_resolve]
  | .assign ref value => by
      simp [Expr.resolve, Expr.bindings, Expr.uses, ref.binding_resolve,
        Expr.bindings_resolve c value]
  | .step direction ref => by
      simp [Expr.resolve, Expr.bindings, Expr.uses, ref.binding_resolve]
  | .call callee _ args => by
      simp [Expr.resolve, Expr.bindings, Expr.uses, Expr.bindings_resolve c callee,
        Expr.bindingsAll_resolve c args]
  | .get object _ _ => Expr.bindings_resolve c object
  | .set object _ value _ => by
      simp [Expr.resolve, Expr.bindings, Expr.uses, Expr.bindings_resolve c object,
        Expr.bindings_resolve c value]
  | .receiver ref => by
      simp [Expr.resolve, Expr.bindings, Expr.uses, ref.binding_resolveReceiver]
  | .inherited ref _ => by
      simp [Expr.resolve, Expr.bindings, Expr.uses, ref.binding_resolve]

theorem Expr.bindingsAll_resolve (c : Context) : ∀ es : List (Expr Unit),
    Expr.bindingsAll (Expr.resolveAll c es) = (Expr.usesAll c es).flatMap Use.bindings
  | [] => rfl
  | e :: rest => by
      simp [Expr.resolveAll, Expr.bindingsAll, Expr.usesAll, Expr.bindings_resolve c e,
        Expr.bindingsAll_resolve c rest]

end

lemma Expr.bindingsOption_resolve (c : Context) (e : Option (Expr Unit)) :
    Expr.bindingsOption (e.map (Expr.resolve c)) = (Expr.usesOption c e).flatMap Use.bindings := by
  cases e with
  | none => rfl
  | some e => exact Expr.bindings_resolve c e

lemma ForStart.bindings_resolve (c : Context) (start : Option (ForStart Unit)) :
    ForStart.bindings (start.map (ForStart.resolve c))
      = (ForStart.uses c start).flatMap Use.bindings := by
  rcases start with _ | ⟨name, value⟩ | e
  · rfl
  · exact Expr.bindingsOption_resolve (c.declare name) value
  · exact Expr.bindings_resolve c e

mutual

theorem Stmt.bindings_resolve : ∀ (c : Context) (s : Stmt Unit),
    (s.resolve c).bindings = (s.uses c).flatMap Use.bindings
  | c, .expr e | c, .echo e => Expr.bindings_resolve c e
  | c, .var name value => Expr.bindingsOption_resolve (c.declare name) value
  | c, .block body => Stmt.bindingsAll_resolve c.enter body
  | c, .exit _ code => Expr.bindings_resolve c code
  | c, .branch condition yes no => by
      simp [Stmt.resolve, Stmt.bindings, Stmt.uses, Expr.bindings_resolve,
        Stmt.bindings_resolve c yes, Stmt.bindingsOption_resolve c no]
  | c, .loop condition body => by
      simp [Stmt.resolve, Stmt.bindings, Stmt.uses, Expr.bindings_resolve,
        Stmt.bindings_resolve c body]
  | c, .forLoop start condition after body => by
      simp [Stmt.resolve, Stmt.bindings, Stmt.uses, Expr.bindings_resolve,
        Expr.bindingsOption_resolve, ForStart.bindings_resolve,
        Stmt.bindings_resolve (c.enter.afterStart start) body]
  | c, .step direction ref => by
      simp [Stmt.resolve, Stmt.bindings, Stmt.uses, ref.binding_resolve]
  | _, .jump _ _ => rfl
  | c, .routine ⟨name, params, body⟩ =>
      Stmt.bindingsAll_resolve ((c.bind name).inRoutine .subroutine params) body
  | c, .giveBack _ value => Expr.bindingsOption_resolve c value
  | c, .classDecl name superclass methods statics getters setters => by
      cases superclass <;>
        simp [Stmt.resolve, Stmt.bindings, Stmt.uses, Reference.usesSuperclass,
          Reference.binding_resolve, Stmt.bindingsRoutines_resolve _ _ methods,
          Stmt.bindingsRoutines_resolve _ _ statics, Stmt.bindingsRoutines_resolve _ _ getters,
          Stmt.bindingsRoutines_resolve _ _ setters]

theorem Stmt.bindingsAll_resolve : ∀ (c : Context) (ss : List (Stmt Unit)),
    Stmt.bindingsAll (Stmt.resolveAll c ss) = (Stmt.usesAll c ss).flatMap Use.bindings
  | _, [] => rfl
  | c, s :: rest => by
      simp [Stmt.resolveAll, Stmt.bindingsAll, Stmt.usesAll, Stmt.bindings_resolve c s,
        Stmt.bindingsAll_resolve (c.after s) rest]

theorem Stmt.bindingsOption_resolve : ∀ (c : Context) (s : Option (Stmt Unit)),
    Stmt.bindingsOption (Stmt.resolveOption c s) = (Stmt.usesOption c s).flatMap Use.bindings
  | _, none => rfl
  | c, some s => Stmt.bindings_resolve c s

theorem Stmt.bindingsRoutines_resolve : ∀ (c : Context) (kind : Token → BodyKind)
    (rs : List (Routine (Stmt Unit))),
    Stmt.bindingsRoutines (Stmt.resolveRoutines c kind rs)
      = (Stmt.usesRoutines c kind rs).flatMap Use.bindings
  | _, _, [] => rfl
  | c, kind, ⟨name, params, body⟩ :: rest => by
      simp [Stmt.resolveRoutines, Stmt.bindingsRoutines, Stmt.usesRoutines,
        Stmt.bindingsAll_resolve (c.inRoutine (kind name) params) body,
        Stmt.bindingsRoutines_resolve c kind rest]

end

/-- The bindings of a resolved program are the depths of its uses, in order. -/
theorem Program.bindings_resolve (program : Program Unit) :
    program.resolve.bindings = program.uses.flatMap Use.bindings :=
  Stmt.bindingsAll_resolve topLevel program

end KScript

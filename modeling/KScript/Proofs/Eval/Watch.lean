import KScript.Eval
import KScript.Proofs.Eval.Heap

/-!
# Watching a run

A run can be watched at the moments at which a reference is evaluated.  A watch looks at such a moment,
the form of the reference, the environment and the state of the machine, and can only stop the run there.
A watch that never stops changes nothing; a property of all moments of a run is a watch for its opposite
that changes nothing either; and a run passes a moment of some kind if a watch for that kind stops it
(`Program.Passes`).

`Moment.Agrees` is the property that scopes and frames are about: the environment at a reference mirrors
the scopes at the place of the program where the reference stands.
-/

namespace KScript

open Scope

/-- A moment of a run at which a reference is evaluated. -/
structure Moment where
  site : Site
  ref : Reference Depth
  env : Env
  machine : Machine

/-- The reference that an expression evaluates by itself. -/
def Expr.reference? : Expr Depth → Option (Site × Reference Depth)
  | .variable ref => some (.reading, ref)
  | .assign ref _ => some (.assign, ref)
  | .step direction ref => some (.stepExpr direction, ref)
  | .receiver ref => some (.receiver, ref)
  | .inherited ref _ => some (.inherited, ref)
  | _ => none

/-- The reference that a statement evaluates by itself. -/
def Stmt.reference? : Stmt Depth → Option (Site × Reference Depth)
  | .step direction ref => some (.stepStmt direction, ref)
  | _ => none

/-- Whether to stop at a moment, and with which signal. -/
abbrev Watch := Moment → Option Signal

namespace Watch

/-- Looks at the moment before a reference is evaluated. -/
def before (w : Watch) (env : Env) : Option (Site × Reference Depth) → Run Unit
  | none => return
  | some (site, ref) => do
    match w ⟨site, ref, env, ← get⟩ with
    | none => return
    | some signal => throw signal

mutual

/-- Evaluates an expression under a watch. -/
def evalAt (w : Watch) : Nat → Env → Expr Depth → Run Value
  | 0, _, _ => throw .exhausted
  | fuel + 1, env, e => do
    w.before env e.reference?
    Interp.evalStep ⟨fuel, w.evalAt fuel, w.execAt fuel⟩ env e

/-- Executes a statement under a watch. -/
def execAt (w : Watch) : Nat → Env → Stmt Depth → Run Completion
  | 0, _, _ => throw .exhausted
  | fuel + 1, env, s => do
    w.before env s.reference?
    Interp.execStep ⟨fuel, w.evalAt fuel, w.execAt fuel⟩ env s

end

/-- Runs a program under a watch. -/
def run (w : Watch) (fuel : Nat) : Program Depth → Run Unit
  | [] => return
  | s :: rest => do
    let _ ← w.execAt fuel Machine.globalEnv s
    w.run fuel rest

open Classical in
/-- Stops with that signal at the moments of some kind. -/
noncomputable def stopAt (kind : Moment → Prop) (signal : Signal) : Watch := fun x =>
  if kind x then some signal else none

end Watch

/-- The run of a program comes to a moment of that kind. -/
def Program.Passes (kind : Moment → Prop) (fuel : Nat) (program : Program Depth) (m : Machine) : Prop :=
  ∀ signal, ∃ m', (Watch.stopAt kind signal).run fuel program m = .error signal m'

/-! ## Moments and uses -/

namespace Use

/-- The name is assigned to or stepped in the initial value of the very local variable it names. -/
def InOwnInitializer (u : Use) : Prop :=
  u.context.scopes.isPending u.name.lexeme = true
    ∧ (u.site = .assign ∨ ∃ direction, u.site = .stepExpr direction)

/-- The superclass is used in a routine without a receiver, in a class that stands where another
receiver is bound: a static method of a class in a method of another class. -/
def InStaticMethod (u : Use) : Prop :=
  u.site = .inherited ∧ ∃ d, u.depth = some d
    ∧ (∀ scope ∈ u.context.scopes.take (d + 1), scope.contains thisName = false)
    ∧ ∃ scope ∈ u.context.scopes.drop (d + 1), scope.contains thisName = true

end Use

namespace Moment

/-- The reference of the moment stands at the place of that use. -/
def StandsAt (x : Moment) (u : Use) : Prop :=
  u.site = x.site ∧ u.name = x.ref.name ∧ u.depth = x.ref.bound

/-- If the reference is bound in a scope, the environment mirrors the scopes at its place, and the frame
of the scope in which its name was found binds that name, unless the name is given its first value. -/
def Agrees (U : List Use) (x : Moment) : Prop :=
  ∀ d, x.ref.bound = some d → ∃ u ∈ U, x.StandsAt u
    ∧ x.machine.frames.Mirror x.env u.context.scopes
    ∧ ∃ address, x.env[d]? = some address
      ∧ ((x.machine.frames.frame address).contains x.ref.name.lexeme = true ∨ u.InOwnInitializer)

/-- The moments at which a name may be looked up in a frame that does not bind it: a step in the initial
value of its own variable, and a use of the superclass in a static method. -/
def MayLack (U : List Use) (name : String) (x : Moment) : Prop :=
  ∃ u ∈ U, x.StandsAt u
    ∧ ((∃ direction, u.site = .stepExpr direction) ∧ u.InOwnInitializer ∧ name = u.name.lexeme
      ∨ u.InStaticMethod ∧ name = thisName)

end Moment

end KScript

import KScript.Proofs.Lines.Relined
import KScript.Scope.Check
import KScript.Scope.Resolve

/-!
# Scopes and lines

The rules of scopes do not look at lines: moving a program moves the complaints about it, and its references
keep their depths.  At the top level there is no scope, so what is declared by one half of a program changes
nothing about the other half.
-/

namespace KScript

open Scope

variable {f : Nat → Nat}

namespace Scope.Context

variable {β : Type} (c : Context)

@[simp] lemma declare_relined (name : Token) : c.declare (name.relined f) = c.declare name := rfl

@[simp] lemma bind_relined (name : Token) : c.bind (name.relined f) = c.bind name := rfl

@[simp] lemma after_relined (s : Stmt β) : c.after (s.relined f) = c.after s := by cases s <;> rfl

@[simp] lemma afterStart_relined (start : Option (ForStart β)) :
    c.afterStart (start.map (ForStart.relined f)) = c.afterStart start := by
  match start with
  | none => rfl
  | some (.var _ _) => rfl
  | some (.expr _) => rfl

@[simp] lemma inRoutine_relined (body : BodyKind) (params : List Token) :
    c.inRoutine body (params.map (Token.relined f)) = c.inRoutine body params := by
  simp [inRoutine, Scopes.defineAll, List.foldl_map]

@[simp] lemma inClass_relined (superclass : Option (Reference β)) :
    c.inClass (superclass.map (Reference.relined f)) = c.inClass superclass := by
  cases superclass <;> rfl

end Scope.Context

/-! ## Complaints -/

lemma complainWhen_relined (broken : Bool) (t : Token) (complaint : Complaint) :
    complainWhen broken (t.relined f) complaint
      = (complainWhen broken t complaint).map (Diagnostic.relined f) := by
  cases broken <;> rfl

namespace Scope.Context

lemma checkNew_relined (c : Context) (name : Token) :
    c.checkNew (name.relined f) = (c.checkNew name).map (Diagnostic.relined f) :=
  complainWhen_relined _ name _

lemma checkRead_relined (c : Context) (name : Token) :
    c.checkRead (name.relined f) = (c.checkRead name).map (Diagnostic.relined f) :=
  complainWhen_relined _ name _

lemma checkParams_relined (c : Context) (params : List Token) :
    c.checkParams (params.map (Token.relined f)) = (c.checkParams params).map (Diagnostic.relined f) := by
  induction params generalizing c with
  | nil => rfl
  | cons name rest ih => simp [checkParams, checkNew_relined, ih]

lemma checkReceiver_relined (c : Context) (keyword : Token) :
    c.checkReceiver (keyword.relined f) = (c.checkReceiver keyword).map (Diagnostic.relined f) := by
  unfold checkReceiver
  split
  · rfl
  · exact complainWhen_relined _ keyword _

lemma checkInherited_relined (c : Context) (keyword : Token) :
    c.checkInherited (keyword.relined f) = (c.checkInherited keyword).map (Diagnostic.relined f) := by
  unfold checkInherited
  split
  · rfl
  · rfl
  · exact complainWhen_relined _ keyword _

lemma checkReturn_relined (c : Context) (keyword : Token) (hasValue : Bool) :
    c.checkReturn (keyword.relined f) hasValue
      = (c.checkReturn keyword hasValue).map (Diagnostic.relined f) := by
  simp [checkReturn, complainWhen_relined]

lemma checkSuperclass_relined (c : Context) (name : Token) (superclass : Option (Reference Unit)) :
    c.checkSuperclass (name.relined f) (superclass.map (Reference.relined f))
      = (c.checkSuperclass name superclass).map (Diagnostic.relined f) := by
  cases superclass with
  | none => rfl
  | some ref =>
      show complainWhen _ (ref.name.relined f) _ ++ c.checkRead (ref.name.relined f) = _
      rw [complainWhen_relined, checkRead_relined, ← List.map_append]
      rfl

end Scope.Context

mutual

lemma Expr.check_relined (c : Context) : ∀ e : Expr Unit,
    (e.relined f).check c = (e.check c).map (Diagnostic.relined f)
  | .literal _ => rfl
  | .array items => Expr.checkAll_relined c items
  | .grouping inner => Expr.check_relined c inner
  | .unary _ operand => Expr.check_relined c operand
  | .binary left _ right | .logical left _ right => by
      simp [Expr.relined, Expr.check, Expr.check_relined c left, Expr.check_relined c right]
  | .conditional condition yes no => by
      simp [Expr.relined, Expr.check, Expr.check_relined c condition, Expr.check_relined c yes,
        Expr.check_relined c no]
  | .variable ref => c.checkRead_relined ref.name
  | .assign _ value => Expr.check_relined c value
  | .step _ _ => rfl
  | .call callee _ args => by
      simp [Expr.relined, Expr.check, Expr.check_relined c callee, Expr.checkAll_relined c args]
  | .get object _ _ => Expr.check_relined c object
  | .set object _ value _ => by
      simp [Expr.relined, Expr.check, Expr.check_relined c object, Expr.check_relined c value]
  | .receiver ref => c.checkReceiver_relined ref.name
  | .inherited ref _ => c.checkInherited_relined ref.name

lemma Expr.checkAll_relined (c : Context) : ∀ es : List (Expr Unit),
    Expr.checkAll c (Expr.relinedAll f es) = (Expr.checkAll c es).map (Diagnostic.relined f)
  | [] => rfl
  | e :: rest => by
      simp [Expr.relinedAll, Expr.checkAll, Expr.check_relined c e, Expr.checkAll_relined c rest]

end

lemma Expr.checkOption_relined (c : Context) (e : Option (Expr Unit)) :
    Expr.checkOption c (e.map (Expr.relined f)) = (Expr.checkOption c e).map (Diagnostic.relined f) := by
  cases e with
  | none => rfl
  | some e => exact Expr.check_relined c e

lemma Scope.Context.checkVar_relined (c : Context) (name : Token) (value : Option (Expr Unit)) :
    c.checkVar (name.relined f) (value.map (Expr.relined f))
      = (c.checkVar name value).map (Diagnostic.relined f) := by
  simp [checkVar, checkNew_relined, Expr.checkOption_relined]

lemma ForStart.check_relined (c : Context) (start : Option (ForStart Unit)) :
    ForStart.check c (start.map (ForStart.relined f))
      = (ForStart.check c start).map (Diagnostic.relined f) := by
  match start with
  | none => rfl
  | some (.var name value) => exact c.checkVar_relined name value
  | some (.expr e) => exact Expr.check_relined c e

mutual

lemma Stmt.check_relined (c : Context) : ∀ s : Stmt Unit,
    (s.relined f).check c = (s.check c).map (Diagnostic.relined f)
  | .expr e => Expr.check_relined c e
  | .echo e => Expr.check_relined c e
  | .var name value => c.checkVar_relined name value
  | .block body => Stmt.checkAll_relined c.enter body
  | .exit _ code => Expr.check_relined c code
  | .branch condition yes no => by
      simp [Stmt.relined, Stmt.check, Expr.check_relined, Stmt.check_relined c yes,
        Stmt.checkOption_relined c no]
  | .loop condition body => by
      simp [Stmt.relined, Stmt.check, Expr.check_relined, Stmt.check_relined c body]
  | .forLoop start condition after body => by
      simp [Stmt.relined, Stmt.check, ForStart.check_relined, Expr.check_relined,
        Expr.checkOption_relined, Stmt.check_relined _ body]
  | .step _ _ => rfl
  | .jump _ _ => rfl
  | .routine ⟨name, params, body⟩ => by
      simp [Stmt.relined, Stmt.check, Scope.Context.checkNew_relined,
        Scope.Context.checkParams_relined, Stmt.checkAll_relined _ body]
  | .giveBack keyword value => by
      simp [Stmt.relined, Stmt.check, Scope.Context.checkReturn_relined, Expr.checkOption_relined]
  | .classDecl name superclass methods statics getters setters => by
      simp [Stmt.relined, Stmt.check, Scope.Context.checkNew_relined,
        Scope.Context.checkSuperclass_relined, Stmt.checkRoutines_relined _ methodKind (fun _ => rfl) methods,
        Stmt.checkRoutines_relined _ (fun _ => .staticMethod) (fun _ => rfl) statics,
        Stmt.checkRoutines_relined _ (fun _ => .method) (fun _ => rfl) getters,
        Stmt.checkRoutines_relined _ (fun _ => .method) (fun _ => rfl) setters]

lemma Stmt.checkAll_relined (c : Context) : ∀ ss : List (Stmt Unit),
    Stmt.checkAll c (Stmt.relinedAll f ss) = (Stmt.checkAll c ss).map (Diagnostic.relined f)
  | [] => rfl
  | s :: rest => by
      simp [Stmt.relinedAll, Stmt.checkAll, Stmt.check_relined c s, Stmt.checkAll_relined _ rest]

lemma Stmt.checkOption_relined (c : Context) : ∀ s : Option (Stmt Unit),
    Stmt.checkOption c (Stmt.relinedOption f s) = (Stmt.checkOption c s).map (Diagnostic.relined f)
  | none => rfl
  | some s => Stmt.check_relined c s

lemma Stmt.checkRoutines_relined (c : Context) (kind : Token → BodyKind)
    (hkind : ∀ name : Token, kind (name.relined f) = kind name) : ∀ rs : List (Routine (Stmt Unit)),
    Stmt.checkRoutines c kind (Stmt.relinedRoutines f rs)
      = (Stmt.checkRoutines c kind rs).map (Diagnostic.relined f)
  | [] => rfl
  | ⟨name, params, body⟩ :: rest => by
      simp [Stmt.relinedRoutines, Stmt.checkRoutines, hkind, Scope.Context.checkParams_relined,
        Stmt.checkAll_relined _ body, Stmt.checkRoutines_relined c kind hkind rest]

end

/-! ## Depths -/

lemma Reference.resolve_relined (ref : Reference Unit) (c : Context) :
    (ref.relined f).resolve c = (ref.resolve c).relined f := rfl

lemma Reference.resolveReceiver_relined (ref : Reference Unit) (c : Context) :
    (ref.relined f).resolveReceiver c = (ref.resolveReceiver c).relined f := by
  unfold Reference.resolveReceiver
  split <;> rfl

mutual

lemma Expr.resolve_relined (c : Context) : ∀ e : Expr Unit,
    (e.relined f).resolve c = (e.resolve c).relined f
  | .literal _ => rfl
  | .array items => by simp [Expr.relined, Expr.resolve, Expr.resolveAll_relined c items]
  | .grouping inner => by simp [Expr.relined, Expr.resolve, Expr.resolve_relined c inner]
  | .unary _ operand => by simp [Expr.relined, Expr.resolve, Expr.resolve_relined c operand]
  | .binary left _ right | .logical left _ right => by
      simp [Expr.relined, Expr.resolve, Expr.resolve_relined c left, Expr.resolve_relined c right]
  | .conditional condition yes no => by
      simp [Expr.relined, Expr.resolve, Expr.resolve_relined c condition, Expr.resolve_relined c yes,
        Expr.resolve_relined c no]
  | .variable _ => rfl
  | .assign ref value => by
      simp [Expr.relined, Expr.resolve, Reference.resolve_relined, Expr.resolve_relined c value]
  | .step _ _ => rfl
  | .call callee _ args => by
      simp [Expr.relined, Expr.resolve, Expr.resolve_relined c callee, Expr.resolveAll_relined c args]
  | .get object _ _ => by simp [Expr.relined, Expr.resolve, Expr.resolve_relined c object]
  | .set object _ value _ => by
      simp [Expr.relined, Expr.resolve, Expr.resolve_relined c object, Expr.resolve_relined c value]
  | .receiver ref => by simp [Expr.relined, Expr.resolve, Reference.resolveReceiver_relined]
  | .inherited _ _ => rfl

lemma Expr.resolveAll_relined (c : Context) : ∀ es : List (Expr Unit),
    Expr.resolveAll c (Expr.relinedAll f es) = Expr.relinedAll f (Expr.resolveAll c es)
  | [] => rfl
  | e :: rest => by
      simp [Expr.relinedAll, Expr.resolveAll, Expr.resolve_relined c e, Expr.resolveAll_relined c rest]

end

lemma Expr.resolve_comp_relined (c : Context) :
    Expr.resolve c ∘ Expr.relined f = Expr.relined f ∘ Expr.resolve c :=
  funext (Expr.resolve_relined c)

lemma ForStart.resolve_comp_relined (c : Context) :
    ForStart.resolve c ∘ ForStart.relined f = ForStart.relined f ∘ ForStart.resolve c := by
  funext start
  cases start with
  | var name value => simp [ForStart.relined, ForStart.resolve, Expr.resolve_comp_relined]
  | expr e => simp [ForStart.relined, ForStart.resolve, Expr.resolve_relined]

mutual

lemma Stmt.resolve_relined (c : Context) : ∀ s : Stmt Unit,
    (s.relined f).resolve c = (s.resolve c).relined f
  | .expr e | .echo e => by simp [Stmt.relined, Stmt.resolve, Expr.resolve_relined]
  | .var name value => by simp [Stmt.relined, Stmt.resolve, Expr.resolve_comp_relined]
  | .block body => by simp [Stmt.relined, Stmt.resolve, Stmt.resolveAll_relined _ body]
  | .exit _ code => by simp [Stmt.relined, Stmt.resolve, Expr.resolve_relined]
  | .branch condition yes no => by
      simp [Stmt.relined, Stmt.resolve, Expr.resolve_relined, Stmt.resolve_relined c yes,
        Stmt.resolveOption_relined c no]
  | .loop condition body => by
      simp [Stmt.relined, Stmt.resolve, Expr.resolve_relined, Stmt.resolve_relined c body]
  | .forLoop start condition after body => by
      simp [Stmt.relined, Stmt.resolve, ForStart.resolve_comp_relined, Expr.resolve_relined,
        Expr.resolve_comp_relined, Stmt.resolve_relined _ body]
  | .step _ _ => rfl
  | .jump _ _ => rfl
  | .routine ⟨name, params, body⟩ => by
      simp [Stmt.relined, Stmt.resolve, Stmt.resolveAll_relined _ body]
  | .giveBack keyword value => by
      simp [Stmt.relined, Stmt.resolve, Expr.resolve_comp_relined]
  | .classDecl name superclass methods statics getters setters => by
      simp [Stmt.relined, Stmt.resolve, Function.comp_def, Reference.resolve_relined,
        Stmt.resolveRoutines_relined _ methodKind (fun _ => rfl) methods,
        Stmt.resolveRoutines_relined _ (fun _ => .staticMethod) (fun _ => rfl) statics,
        Stmt.resolveRoutines_relined _ (fun _ => .method) (fun _ => rfl) getters,
        Stmt.resolveRoutines_relined _ (fun _ => .method) (fun _ => rfl) setters]

lemma Stmt.resolveAll_relined (c : Context) : ∀ ss : List (Stmt Unit),
    Stmt.resolveAll c (Stmt.relinedAll f ss) = Stmt.relinedAll f (Stmt.resolveAll c ss)
  | [] => rfl
  | s :: rest => by
      simp [Stmt.relinedAll, Stmt.resolveAll, Stmt.resolve_relined c s, Stmt.resolveAll_relined _ rest]

lemma Stmt.resolveOption_relined (c : Context) : ∀ s : Option (Stmt Unit),
    Stmt.resolveOption c (Stmt.relinedOption f s) = Stmt.relinedOption f (Stmt.resolveOption c s)
  | none => rfl
  | some s => by simp [Stmt.relinedOption, Stmt.resolveOption, Stmt.resolve_relined c s]

lemma Stmt.resolveRoutines_relined (c : Context) (kind : Token → BodyKind)
    (hkind : ∀ name : Token, kind (name.relined f) = kind name) : ∀ rs : List (Routine (Stmt Unit)),
    Stmt.resolveRoutines c kind (Stmt.relinedRoutines f rs)
      = Stmt.relinedRoutines f (Stmt.resolveRoutines c kind rs)
  | [] => rfl
  | ⟨name, params, body⟩ :: rest => by
      simp [Stmt.relinedRoutines, Stmt.resolveRoutines, hkind, Stmt.resolveAll_relined _ body,
        Stmt.resolveRoutines_relined c kind hkind rest]

end

/-! ## Programs -/

lemma Program.check_relined (program : Program Unit) :
    Program.check (Stmt.relinedAll f program) = program.check.map (Diagnostic.relined f) :=
  Stmt.checkAll_relined topLevel program

lemma Program.resolve_relined (program : Program Unit) :
    Program.resolve (Stmt.relinedAll f program) = Stmt.relinedAll f program.resolve :=
  Stmt.resolveAll_relined topLevel program

/-- At the top level nothing that is declared makes a scope. -/
lemma Scope.Context.after_topLevel {β : Type} (s : Stmt β) : topLevel.after s = topLevel := by
  cases s <;> rfl

lemma Program.check_append (p q : Program Unit) :
    Program.check (p ++ q) = Program.check p ++ Program.check q := by
  unfold Program.check
  induction p with
  | nil => rfl
  | cons s rest ih => simp [Stmt.checkAll, Scope.Context.after_topLevel, ih]

lemma Program.resolve_append (p q : Program Unit) :
    Program.resolve (p ++ q) = Program.resolve p ++ Program.resolve q := by
  unfold Program.resolve
  induction p with
  | nil => rfl
  | cons s rest ih => simp [Stmt.resolveAll, Scope.Context.after_topLevel, ih]

end KScript

import KScript.Syntax
import Mathlib.Tactic.Common

/-!
# Trees on other lines

`relined f` moves every token of a tree from its line to the line that `f` gives.
-/

namespace KScript

variable {β : Type} (f : Nat → Nat)

/-! ## Moving a tree -/

/-- The token on another line. -/
def Token.relined (t : Token) : Token := { t with line := f t.line }

/-- The complaint about another line. -/
def Diagnostic.relined (d : Diagnostic) : Diagnostic := { d with line := f d.line }

namespace Token

@[simp] lemma relined_kind (t : Token) : (t.relined f).kind = t.kind := rfl

@[simp] lemma relined_lexeme (t : Token) : (t.relined f).lexeme = t.lexeme := rfl

@[simp] lemma relined_id : Token.relined id = id := rfl

end Token

/-- The reference on another line. -/
def Reference.relined (ref : Reference β) : Reference β := { ref with name := ref.name.relined f }

@[simp] lemma Reference.relined_id : Reference.relined id = (id : Reference β → Reference β) := rfl

mutual

/-- The expression on other lines. -/
def Expr.relined : Expr β → Expr β
  | .literal value => .literal value
  | .array items => .array (Expr.relinedAll items)
  | .grouping inner => .grouping inner.relined
  | .unary op operand => .unary (op.relined f) operand.relined
  | .binary left op right => .binary left.relined (op.relined f) right.relined
  | .logical left op right => .logical left.relined (op.relined f) right.relined
  | .conditional condition yes no => .conditional condition.relined yes.relined no.relined
  | .variable ref => .variable (ref.relined f)
  | .assign ref value => .assign (ref.relined f) value.relined
  | .step direction ref => .step direction (ref.relined f)
  | .call callee paren args => .call callee.relined (paren.relined f) (Expr.relinedAll args)
  | .get object name inside => .get object.relined (name.relined f) inside
  | .set object name value inside => .set object.relined (name.relined f) value.relined inside
  | .receiver ref => .receiver (ref.relined f)
  | .inherited ref method => .inherited (ref.relined f) (method.relined f)

/-- The expressions on other lines. -/
def Expr.relinedAll : List (Expr β) → List (Expr β)
  | [] => []
  | e :: rest => e.relined :: Expr.relinedAll rest

end

/-- The first clause of a `for` loop on other lines. -/
def ForStart.relined : ForStart β → ForStart β
  | .var name value => .var (name.relined f) (value.map (Expr.relined f))
  | .expr e => .expr (e.relined f)

mutual

/-- The statement on other lines. -/
def Stmt.relined : Stmt β → Stmt β
  | .expr e => .expr (e.relined f)
  | .echo e => .echo (e.relined f)
  | .var name value => .var (name.relined f) (value.map (Expr.relined f))
  | .block body => .block (Stmt.relinedAll body)
  | .exit keyword code => .exit (keyword.relined f) (code.relined f)
  | .branch condition yes no => .branch (condition.relined f) yes.relined (Stmt.relinedOption no)
  | .loop condition body => .loop (condition.relined f) body.relined
  | .forLoop start condition after body =>
    .forLoop (start.map (ForStart.relined f)) (condition.relined f) (after.map (Expr.relined f)) body.relined
  | .step direction ref => .step direction (ref.relined f)
  | .jump kind keyword => .jump kind (keyword.relined f)
  | .routine ⟨name, params, body⟩ =>
    .routine ⟨name.relined f, params.map (Token.relined f), Stmt.relinedAll body⟩
  | .giveBack keyword value => .giveBack (keyword.relined f) (value.map (Expr.relined f))
  | .classDecl name superclass methods statics getters setters =>
    .classDecl (name.relined f) (superclass.map (Reference.relined f)) (Stmt.relinedRoutines methods)
      (Stmt.relinedRoutines statics) (Stmt.relinedRoutines getters) (Stmt.relinedRoutines setters)

/-- The statements on other lines. -/
def Stmt.relinedAll : List (Stmt β) → List (Stmt β)
  | [] => []
  | s :: rest => s.relined :: Stmt.relinedAll rest

/-- A statement that may be left out, on other lines. -/
def Stmt.relinedOption : Option (Stmt β) → Option (Stmt β)
  | none => none
  | some s => some s.relined

/-- Routines on other lines. -/
def Stmt.relinedRoutines : List (Routine (Stmt β)) → List (Routine (Stmt β))
  | [] => []
  | ⟨name, params, body⟩ :: rest =>
    ⟨name.relined f, params.map (Token.relined f), Stmt.relinedAll body⟩ :: Stmt.relinedRoutines rest

end

variable {f}

lemma Expr.relinedAll_eq (es : List (Expr β)) : Expr.relinedAll f es = es.map (Expr.relined f) := by
  induction es with
  | nil => rfl
  | cons e rest ih => rw [Expr.relinedAll, ih, List.map_cons]

lemma Stmt.relinedOption_eq (s : Option (Stmt β)) : Stmt.relinedOption f s = s.map (Stmt.relined f) := by
  cases s <;> rfl

/-! ## Staying on its lines -/

mutual

lemma Expr.relined_id : ∀ e : Expr β, e.relined id = e
  | .literal _ | .variable _ | .step _ _ | .receiver _ | .inherited _ _ => rfl
  | .array items => by simp [Expr.relined, Expr.relinedAll_id items]
  | .grouping inner => by simp [Expr.relined, Expr.relined_id inner]
  | .unary _ operand => by simp [Expr.relined, Expr.relined_id operand]
  | .binary left _ right | .logical left _ right =>
      by simp [Expr.relined, Expr.relined_id left, Expr.relined_id right]
  | .conditional condition yes no => by
      simp [Expr.relined, Expr.relined_id condition, Expr.relined_id yes, Expr.relined_id no]
  | .assign _ value => by simp [Expr.relined, Expr.relined_id value]
  | .call callee _ args => by simp [Expr.relined, Expr.relined_id callee, Expr.relinedAll_id args]
  | .get object _ _ => by simp [Expr.relined, Expr.relined_id object]
  | .set object _ value _ => by simp [Expr.relined, Expr.relined_id object, Expr.relined_id value]

lemma Expr.relinedAll_id : ∀ es : List (Expr β), Expr.relinedAll id es = es
  | [] => rfl
  | e :: rest => by simp [Expr.relinedAll, Expr.relined_id e, Expr.relinedAll_id rest]

end

lemma Expr.map_relined_id (e : Option (Expr β)) : e.map (Expr.relined id) = e := by
  cases e with
  | none => rfl
  | some e => rw [Option.map_some, Expr.relined_id]

lemma ForStart.map_relined_id (start : Option (ForStart β)) : start.map (ForStart.relined id) = start := by
  match start with
  | none => rfl
  | some (.var name value) => simp [ForStart.relined, Expr.map_relined_id]
  | some (.expr e) => simp [ForStart.relined, Expr.relined_id]

mutual

lemma Stmt.relined_id : ∀ s : Stmt β, s.relined id = s
  | .expr e | .echo e => by simp [Stmt.relined, Expr.relined_id]
  | .var _ _ | .giveBack _ _ => by simp [Stmt.relined, Expr.map_relined_id]
  | .step _ _ | .jump _ _ => rfl
  | .block body => by simp [Stmt.relined, Stmt.relinedAll_id body]
  | .exit _ code => by simp [Stmt.relined, Expr.relined_id]
  | .branch condition yes no => by
      simp [Stmt.relined, Expr.relined_id, Stmt.relined_id yes, Stmt.relinedOption_id no]
  | .loop condition body => by simp [Stmt.relined, Expr.relined_id, Stmt.relined_id body]
  | .forLoop start condition after body => by
      simp [Stmt.relined, ForStart.map_relined_id, Expr.relined_id, Expr.map_relined_id,
        Stmt.relined_id body]
  | .routine ⟨name, params, body⟩ => by simp [Stmt.relined, Stmt.relinedAll_id body]
  | .classDecl _ superclass methods statics getters setters => by
      simp [Stmt.relined, Stmt.relinedRoutines_id methods, Stmt.relinedRoutines_id statics,
        Stmt.relinedRoutines_id getters, Stmt.relinedRoutines_id setters]

lemma Stmt.relinedAll_id : ∀ ss : List (Stmt β), Stmt.relinedAll id ss = ss
  | [] => rfl
  | s :: rest => by simp [Stmt.relinedAll, Stmt.relined_id s, Stmt.relinedAll_id rest]

lemma Stmt.relinedOption_id : ∀ s : Option (Stmt β), Stmt.relinedOption id s = s
  | none => rfl
  | some s => by simp [Stmt.relinedOption, Stmt.relined_id s]

lemma Stmt.relinedRoutines_id : ∀ rs : List (Routine (Stmt β)), Stmt.relinedRoutines id rs = rs
  | [] => rfl
  | ⟨name, params, body⟩ :: rest => by
      simp [Stmt.relinedRoutines, Stmt.relinedAll_id body, Stmt.relinedRoutines_id rest]

end

end KScript

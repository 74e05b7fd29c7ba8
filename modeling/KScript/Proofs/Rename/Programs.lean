import KScript.Proofs.Alike.Trees

/-!
# Renaming local variables

A renaming replaces the name `x` by `y` in some of the local scopes of a program: where a variable or a
parameter of the name `x` is declared in such a scope, and at exactly the references that were resolved to
it.  It is told on resolved programs, where each reference has the depth of its scope; a list of marks says
for each scope around a place, innermost first, whether names are replaced in it.  The global scope is none
of them, and the names of routines and classes stay: a scope in which one of these is called `x` cannot be
chosen.

`forget` takes the depths away again, so that the renamed program can be resolved on its own.
-/

namespace KScript

/-! ## Replacing a name -/

/-- The token with the name replaced, if the scope is marked. -/
def Token.renamed (x y : String) (marked : Bool) (t : Token) : Token :=
  if marked = true ∧ t.lexeme = x then { t with lexeme := y } else t

/-- The reference with the name replaced, if its scope is marked; its depth stays. -/
def Reference.renamed (x y : String) (marks : List Bool) (ref : Reference Depth) : Reference Depth :=
  { ref with name := ref.name.renamed x y (Likeness.mark marks ref.bound) }

mutual

/-- The expression with the name replaced at all references to marked scopes. -/
def Expr.renamed (x y : String) (marks : List Bool) : Expr Depth → Expr Depth
  | .literal value => .literal value
  | .array items => .array (Expr.renamedAll x y marks items)
  | .grouping inner => .grouping (inner.renamed x y marks)
  | .unary op operand => .unary op (operand.renamed x y marks)
  | .binary left op right => .binary (left.renamed x y marks) op (right.renamed x y marks)
  | .logical left op right => .logical (left.renamed x y marks) op (right.renamed x y marks)
  | .conditional condition yes no =>
    .conditional (condition.renamed x y marks) (yes.renamed x y marks) (no.renamed x y marks)
  | .variable ref => .variable (ref.renamed x y marks)
  | .assign ref value => .assign (ref.renamed x y marks) (value.renamed x y marks)
  | .step direction ref => .step direction (ref.renamed x y marks)
  | .call callee paren args =>
    .call (callee.renamed x y marks) paren (Expr.renamedAll x y marks args)
  | .get object name inside => .get (object.renamed x y marks) name inside
  | .set object name value inside =>
    .set (object.renamed x y marks) name (value.renamed x y marks) inside
  | .receiver ref => .receiver (ref.renamed x y marks)
  | .inherited ref method => .inherited (ref.renamed x y marks) method

/-- The expressions with the name replaced at all references to marked scopes. -/
def Expr.renamedAll (x y : String) (marks : List Bool) : List (Expr Depth) → List (Expr Depth)
  | [] => []
  | e :: rest => e.renamed x y marks :: Expr.renamedAll x y marks rest

end

/-- The first clause of a `for` loop with the name replaced. -/
def ForStart.renamed (x y : String) (marks : List Bool) : ForStart Depth → ForStart Depth
  | .var name value =>
    .var (name.renamed x y (marks.headD false)) (value.map (Expr.renamed x y marks))
  | .expr e => .expr (e.renamed x y marks)

mutual

/-- The second statement is the first with the name replaced in marked scopes; which of the scopes that it
opens are marked is free. -/
def Stmt.Renamed (x y : String) (marks : List Bool) : Stmt Depth → Stmt Depth → Prop
  | .expr e, s => s = .expr (e.renamed x y marks)
  | .echo e, s => s = .echo (e.renamed x y marks)
  | .var name value, s =>
    s = .var (name.renamed x y (marks.headD false)) (value.map (Expr.renamed x y marks))
  | .block body, s => ∃ b body', s = .block body' ∧ Stmt.RenamedAll x y (b :: marks) body body'
  | .exit keyword code, s => s = .exit keyword (code.renamed x y marks)
  | .branch condition yes no, s =>
    ∃ yes' no', s = .branch (condition.renamed x y marks) yes' no' ∧ yes.Renamed x y marks yes'
      ∧ Stmt.RenamedOption x y marks no no'
  | .loop condition body, s =>
    ∃ body', s = .loop (condition.renamed x y marks) body' ∧ body.Renamed x y marks body'
  | .forLoop start condition after body, s =>
    ∃ b body', s = .forLoop (start.map (ForStart.renamed x y (b :: marks)))
        (condition.renamed x y (b :: marks)) (after.map (Expr.renamed x y (b :: marks))) body'
      ∧ body.Renamed x y (b :: marks) body'
  | .step direction ref, s => s = .step direction (ref.renamed x y marks)
  | .jump j keyword, s => s = .jump j keyword
  | .routine ⟨name, params, body⟩, s =>
    ∃ b body', s = .routine ⟨name, params.map (Token.renamed x y b), body'⟩
      ∧ (marks.headD false = true → name.lexeme ≠ x) ∧ Stmt.RenamedAll x y (b :: marks) body body'
  | .giveBack keyword value, s => s = .giveBack keyword (value.map (Expr.renamed x y marks))
  | .classDecl name superclass methods statics getters setters, s =>
    ∃ methods' statics' getters' setters',
      s = .classDecl name (superclass.map (Reference.renamed x y marks)) methods' statics' getters'
        setters'
      ∧ (marks.headD false = true → name.lexeme ≠ x)
      ∧ Stmt.RenamedRoutines x y (false :: Likeness.inClass marks superclass) methods methods'
      ∧ Stmt.RenamedRoutines x y (Likeness.inClass marks superclass) statics statics'
      ∧ Stmt.RenamedRoutines x y (false :: Likeness.inClass marks superclass) getters getters'
      ∧ Stmt.RenamedRoutines x y (false :: Likeness.inClass marks superclass) setters setters'
termination_by structural s => s

/-- The second statements are the first with the name replaced in marked scopes. -/
def Stmt.RenamedAll (x y : String) (marks : List Bool) :
    List (Stmt Depth) → List (Stmt Depth) → Prop
  | [], ss => ss = []
  | s :: rest, ss =>
    ∃ s' rest', ss = s' :: rest' ∧ s.Renamed x y marks s' ∧ Stmt.RenamedAll x y marks rest rest'

/-- The same for a statement that may be left out. -/
def Stmt.RenamedOption (x y : String) (marks : List Bool) :
    Option (Stmt Depth) → Option (Stmt Depth) → Prop
  | none, s => s = none
  | some s, s' => ∃ t, s' = some t ∧ s.Renamed x y marks t

/-- The same for the routines of a class, whose names are no variables. -/
def Stmt.RenamedRoutines (x y : String) (marks : List Bool) :
    List (Routine (Stmt Depth)) → List (Routine (Stmt Depth)) → Prop
  | [], rs => rs = []
  | ⟨name, params, body⟩ :: rest, rs =>
    ∃ b body' rest', rs = ⟨name, params.map (Token.renamed x y b), body'⟩ :: rest'
      ∧ Stmt.RenamedAll x y (b :: marks) body body' ∧ Stmt.RenamedRoutines x y marks rest rest'

end

/-- The second program is the first with `x` replaced by `y` in some of its local scopes. -/
def Program.Renamed (x y : String) (program program' : Program Depth) : Prop :=
  Stmt.RenamedAll x y [] program program'

/-! ## The names of a program -/

mutual

/-- The names of variables that occur in an expression. -/
def Expr.names : Expr Depth → List String
  | .literal _ => []
  | .array items => Expr.namesAll items
  | .grouping inner => inner.names
  | .unary _ operand => operand.names
  | .binary left _ right => left.names ++ right.names
  | .logical left _ right => left.names ++ right.names
  | .conditional condition yes no => condition.names ++ yes.names ++ no.names
  | .variable ref => [ref.name.lexeme]
  | .assign ref value => ref.name.lexeme :: value.names
  | .step _ ref => [ref.name.lexeme]
  | .call callee _ args => callee.names ++ Expr.namesAll args
  | .get object _ _ => object.names
  | .set object _ value _ => object.names ++ value.names
  | .receiver ref => [ref.name.lexeme]
  | .inherited ref _ => [ref.name.lexeme]

def Expr.namesAll : List (Expr Depth) → List String
  | [] => []
  | e :: rest => e.names ++ Expr.namesAll rest

end

def Expr.namesOption : Option (Expr Depth) → List String
  | none => []
  | some e => e.names

def ForStart.names : Option (ForStart Depth) → List String
  | none => []
  | some (.var name value) => name.lexeme :: Expr.namesOption value
  | some (.expr e) => e.names

mutual

/-- The names of variables, parameters, routines and classes that occur in a statement. -/
def Stmt.names : Stmt Depth → List String
  | .expr e => e.names
  | .echo e => e.names
  | .var name value => name.lexeme :: Expr.namesOption value
  | .block body => Stmt.namesAll body
  | .exit _ code => code.names
  | .branch condition yes no => condition.names ++ yes.names ++ Stmt.namesOption no
  | .loop condition body => condition.names ++ body.names
  | .forLoop start condition after body =>
    ForStart.names start ++ condition.names ++ Expr.namesOption after ++ body.names
  | .step _ ref => [ref.name.lexeme]
  | .jump _ _ => []
  | .routine ⟨name, params, body⟩ =>
    name.lexeme :: (params.map (·.lexeme) ++ Stmt.namesAll body)
  | .giveBack _ value => Expr.namesOption value
  | .classDecl name superclass methods statics getters setters =>
    name.lexeme :: ((superclass.map (·.name.lexeme)).toList ++ Stmt.namesRoutines methods
      ++ Stmt.namesRoutines statics ++ Stmt.namesRoutines getters ++ Stmt.namesRoutines setters)

def Stmt.namesAll : List (Stmt Depth) → List String
  | [] => []
  | s :: rest => s.names ++ Stmt.namesAll rest

def Stmt.namesOption : Option (Stmt Depth) → List String
  | none => []
  | some s => s.names

def Stmt.namesRoutines : List (Routine (Stmt Depth)) → List String
  | [] => []
  | ⟨_, params, body⟩ :: rest =>
    params.map (·.lexeme) ++ Stmt.namesAll body ++ Stmt.namesRoutines rest

end

/-- The names that occur in a program. -/
def Program.names (program : Program Depth) : List String := Stmt.namesAll program

/-! ## Forgetting depths -/

def Reference.forget (ref : Reference Depth) : Reference Unit := ⟨ref.name, ()⟩

mutual

/-- The expression without the depths of its references. -/
def Expr.forget : Expr Depth → Expr Unit
  | .literal value => .literal value
  | .array items => .array (Expr.forgetAll items)
  | .grouping inner => .grouping inner.forget
  | .unary op operand => .unary op operand.forget
  | .binary left op right => .binary left.forget op right.forget
  | .logical left op right => .logical left.forget op right.forget
  | .conditional condition yes no => .conditional condition.forget yes.forget no.forget
  | .variable ref => .variable ref.forget
  | .assign ref value => .assign ref.forget value.forget
  | .step direction ref => .step direction ref.forget
  | .call callee paren args => .call callee.forget paren (Expr.forgetAll args)
  | .get object name inside => .get object.forget name inside
  | .set object name value inside => .set object.forget name value.forget inside
  | .receiver ref => .receiver ref.forget
  | .inherited ref method => .inherited ref.forget method

def Expr.forgetAll : List (Expr Depth) → List (Expr Unit)
  | [] => []
  | e :: rest => e.forget :: Expr.forgetAll rest

end

def ForStart.forget : ForStart Depth → ForStart Unit
  | .var name value => .var name (value.map Expr.forget)
  | .expr e => .expr e.forget

mutual

/-- The statement without the depths of its references. -/
def Stmt.forget : Stmt Depth → Stmt Unit
  | .expr e => .expr e.forget
  | .echo e => .echo e.forget
  | .var name value => .var name (value.map Expr.forget)
  | .block body => .block (Stmt.forgetAll body)
  | .exit keyword code => .exit keyword code.forget
  | .branch condition yes no => .branch condition.forget yes.forget (Stmt.forgetOption no)
  | .loop condition body => .loop condition.forget body.forget
  | .forLoop start condition after body =>
    .forLoop (start.map ForStart.forget) condition.forget (after.map Expr.forget) body.forget
  | .step direction ref => .step direction ref.forget
  | .jump j keyword => .jump j keyword
  | .routine ⟨name, params, body⟩ => .routine ⟨name, params, Stmt.forgetAll body⟩
  | .giveBack keyword value => .giveBack keyword (value.map Expr.forget)
  | .classDecl name superclass methods statics getters setters =>
    .classDecl name (superclass.map Reference.forget) (Stmt.forgetRoutines methods)
      (Stmt.forgetRoutines statics) (Stmt.forgetRoutines getters) (Stmt.forgetRoutines setters)

def Stmt.forgetAll : List (Stmt Depth) → List (Stmt Unit)
  | [] => []
  | s :: rest => s.forget :: Stmt.forgetAll rest

def Stmt.forgetOption : Option (Stmt Depth) → Option (Stmt Unit)
  | none => none
  | some s => some s.forget

def Stmt.forgetRoutines : List (Routine (Stmt Depth)) → List (Routine (Stmt Unit))
  | [] => []
  | ⟨name, params, body⟩ :: rest =>
    ⟨name, params, Stmt.forgetAll body⟩ :: Stmt.forgetRoutines rest

end

/-- The program without the depths of its references. -/
def Program.forget (program : Program Depth) : Program Unit := Stmt.forgetAll program

end KScript

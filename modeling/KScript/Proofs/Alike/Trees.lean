import KScript.Proofs.Lines.Relined
import KScript.Scope
import Mathlib.Data.List.Forall2
import Mathlib.Logic.Equiv.Basic
import Mathlib.Tactic.Common

/-!
# Programs that are alike

Programs are compared up to a `Likeness`: two names that stand for each other in some scopes, and tokens
that stand for each other.  `Like` relates resolved trees along their structure.  A list of marks goes with
each place, one mark for each scope around it, innermost first: in the marked scopes the two names are
exchanged.  A reference keeps its depth, and its name is exchanged if the scope that its depth leads to is
marked; the marks of new scopes are chosen freely.
-/

namespace KScript

/-- What programs are compared up to. -/
structure Likeness where
  /-- The names that stand for each other in marked scopes. -/
  first : String
  second : String
  /-- Tokens that stand for each other. -/
  Same : Token → Token → Prop
  same_kind : ∀ {t t' : Token}, Same t t' → t'.kind = t.kind
  same_lexeme : ∀ {t t' : Token}, Same t t' → t'.lexeme = t.lexeme
  /-- Neither name is reserved. -/
  declarable : ∀ name ∈ [first, second], name ≠ Scope.thisName ∧ name ≠ Scope.superName

namespace Likeness

variable (L : Likeness)

/-- What stands for a name in a scope. -/
def perm (marked : Bool) : Equiv.Perm String :=
  if marked then Equiv.swap L.first L.second else Equiv.refl String

/-- What stands for a token that names something in a scope. -/
def token (marked : Bool) (t : Token) : Token := { t with lexeme := L.perm marked t.lexeme }

@[simp] lemma perm_false (name : String) : L.perm false name = name := rfl

lemma perm_of_ne {name : String} (hfirst : name ≠ L.first) (hsecond : name ≠ L.second)
    (marked : Bool) : L.perm marked name = name := by
  cases marked with
  | false => rfl
  | true => exact Equiv.swap_apply_of_ne_of_ne hfirst hsecond

@[simp] lemma perm_this (marked : Bool) : L.perm marked Scope.thisName = Scope.thisName := by
  refine L.perm_of_ne ?_ ?_ marked
  · exact (L.declarable _ (by simp)).1.symm
  · exact (L.declarable _ (by simp)).1.symm

@[simp] lemma perm_super (marked : Bool) : L.perm marked Scope.superName = Scope.superName := by
  refine L.perm_of_ne ?_ ?_ marked
  · exact (L.declarable _ (by simp)).2.symm
  · exact (L.declarable _ (by simp)).2.symm

/-- Whether the scope is marked to which a depth leads. -/
def mark (marks : List Bool) (depth : Depth) : Bool := (depth.bind (marks[·]?)).getD false

end Likeness

/-- The references have one depth, and their names stand for each other. -/
def Reference.Like (L : Likeness) (marks : List Bool) (ref ref' : Reference Depth) : Prop :=
  ref'.bound = ref.bound ∧ L.Same (L.token (Likeness.mark marks ref.bound) ref.name) ref'.name

mutual

/-- The expressions are alike. -/
def Expr.Like (L : Likeness) (marks : List Bool) : Expr Depth → Expr Depth → Prop
  | .literal value, e => e = .literal value
  | .array items, e => ∃ items', e = .array items' ∧ Expr.LikeAll L marks items items'
  | .grouping inner, e => ∃ inner', e = .grouping inner' ∧ inner.Like L marks inner'
  | .unary op operand, e =>
    ∃ op' operand', e = .unary op' operand' ∧ L.Same op op' ∧ operand.Like L marks operand'
  | .binary left op right, e =>
    ∃ left' op' right', e = .binary left' op' right' ∧ left.Like L marks left' ∧ L.Same op op'
      ∧ right.Like L marks right'
  | .logical left op right, e =>
    ∃ left' op' right', e = .logical left' op' right' ∧ left.Like L marks left' ∧ L.Same op op'
      ∧ right.Like L marks right'
  | .conditional condition yes no, e =>
    ∃ condition' yes' no', e = .conditional condition' yes' no'
      ∧ condition.Like L marks condition' ∧ yes.Like L marks yes' ∧ no.Like L marks no'
  | .variable ref, e => ∃ ref', e = .variable ref' ∧ ref.Like L marks ref'
  | .assign ref value, e =>
    ∃ ref' value', e = .assign ref' value' ∧ ref.Like L marks ref' ∧ value.Like L marks value'
  | .step direction ref, e => ∃ ref', e = .step direction ref' ∧ ref.Like L marks ref'
  | .call callee paren args, e =>
    ∃ callee' paren' args', e = .call callee' paren' args' ∧ callee.Like L marks callee'
      ∧ L.Same paren paren' ∧ Expr.LikeAll L marks args args'
  | .get object name inside, e =>
    ∃ object' name', e = .get object' name' inside ∧ object.Like L marks object'
      ∧ L.Same name name'
  | .set object name value inside, e =>
    ∃ object' name' value', e = .set object' name' value' inside ∧ object.Like L marks object'
      ∧ L.Same name name' ∧ value.Like L marks value'
  | .receiver ref, e => ∃ ref', e = .receiver ref' ∧ ref.Like L marks ref'
  | .inherited ref method, e =>
    ∃ ref' method', e = .inherited ref' method' ∧ ref.Like L marks ref' ∧ L.Same method method'

/-- The expressions are alike, one by one. -/
def Expr.LikeAll (L : Likeness) (marks : List Bool) : List (Expr Depth) → List (Expr Depth) → Prop
  | [], es => es = []
  | e :: rest, es =>
    ∃ e' rest', es = e' :: rest' ∧ e.Like L marks e' ∧ Expr.LikeAll L marks rest rest'

end

/-- The expressions are alike, or both are left out. -/
def Expr.LikeOption (L : Likeness) (marks : List Bool) :
    Option (Expr Depth) → Option (Expr Depth) → Prop
  | none, e => e = none
  | some e, e' => ∃ x, e' = some x ∧ e.Like L marks x

/-- The first clauses of two `for` loops are alike. -/
def ForStart.Like (L : Likeness) (marks : List Bool) :
    Option (ForStart Depth) → Option (ForStart Depth) → Prop
  | none, start => start = none
  | some (.var name value), start =>
    ∃ name' value', start = some (.var name' value')
      ∧ L.Same (L.token (marks.headD false) name) name' ∧ Expr.LikeOption L marks value value'
  | some (.expr e), start => ∃ e', start = some (.expr e') ∧ e.Like L marks e'

/-- The superclasses are alike, or there are none. -/
def Reference.LikeOption (L : Likeness) (marks : List Bool) :
    Option (Reference Depth) → Option (Reference Depth) → Prop
  | none, ref => ref = none
  | some ref, ref' => ∃ r, ref' = some r ∧ ref.Like L marks r

/-- The marks around the routines of a class. -/
def Likeness.inClass (marks : List Bool) : Option (Reference Depth) → List Bool
  | none => marks
  | some _ => false :: marks

mutual

/-- The statements are alike.  Routines and classes keep their names, which are seen in texts. -/
def Stmt.Like (L : Likeness) (marks : List Bool) : Stmt Depth → Stmt Depth → Prop
  | .expr e, s => ∃ e', s = .expr e' ∧ e.Like L marks e'
  | .echo e, s => ∃ e', s = .echo e' ∧ e.Like L marks e'
  | .var name value, s =>
    ∃ name' value', s = .var name' value' ∧ L.Same (L.token (marks.headD false) name) name'
      ∧ Expr.LikeOption L marks value value'
  | .block body, s => ∃ b body', s = .block body' ∧ Stmt.LikeAll L (b :: marks) body body'
  | .exit keyword code, s =>
    ∃ keyword' code', s = .exit keyword' code' ∧ L.Same keyword keyword' ∧ code.Like L marks code'
  | .branch condition yes no, s =>
    ∃ condition' yes' no', s = .branch condition' yes' no' ∧ condition.Like L marks condition'
      ∧ yes.Like L marks yes' ∧ Stmt.LikeOption L marks no no'
  | .loop condition body, s =>
    ∃ condition' body', s = .loop condition' body' ∧ condition.Like L marks condition'
      ∧ body.Like L marks body'
  | .forLoop start condition after body, s =>
    ∃ b start' condition' after' body', s = .forLoop start' condition' after' body'
      ∧ ForStart.Like L (b :: marks) start start' ∧ condition.Like L (b :: marks) condition'
      ∧ Expr.LikeOption L (b :: marks) after after' ∧ body.Like L (b :: marks) body'
  | .step direction ref, s => ∃ ref', s = .step direction ref' ∧ ref.Like L marks ref'
  | .jump j _, s => ∃ keyword', s = .jump j keyword'
  | .routine ⟨name, params, body⟩, s =>
    ∃ b name' params' body', s = .routine ⟨name', params', body'⟩
      ∧ L.perm (marks.headD false) name.lexeme = name.lexeme ∧ L.Same name name'
      ∧ List.Forall₂ (fun p p' => L.Same (L.token b p) p') params params'
      ∧ Stmt.LikeAll L (b :: marks) body body'
  | .giveBack _ value, s =>
    ∃ keyword' value', s = .giveBack keyword' value' ∧ Expr.LikeOption L marks value value'
  | .classDecl name superclass methods statics getters setters, s =>
    ∃ name' superclass' methods' statics' getters' setters',
      s = .classDecl name' superclass' methods' statics' getters' setters'
      ∧ L.perm (marks.headD false) name.lexeme = name.lexeme ∧ L.Same name name'
      ∧ Reference.LikeOption L marks superclass superclass'
      ∧ Stmt.LikeRoutines L (false :: Likeness.inClass marks superclass) methods methods'
      ∧ Stmt.LikeRoutines L (Likeness.inClass marks superclass) statics statics'
      ∧ Stmt.LikeRoutines L (false :: Likeness.inClass marks superclass) getters getters'
      ∧ Stmt.LikeRoutines L (false :: Likeness.inClass marks superclass) setters setters'
termination_by structural s => s

/-- The statements are alike, one by one. -/
def Stmt.LikeAll (L : Likeness) (marks : List Bool) : List (Stmt Depth) → List (Stmt Depth) → Prop
  | [], ss => ss = []
  | s :: rest, ss =>
    ∃ s' rest', ss = s' :: rest' ∧ s.Like L marks s' ∧ Stmt.LikeAll L marks rest rest'

/-- The statements are alike, or both are left out. -/
def Stmt.LikeOption (L : Likeness) (marks : List Bool) :
    Option (Stmt Depth) → Option (Stmt Depth) → Prop
  | none, s => s = none
  | some s, s' => ∃ x, s' = some x ∧ s.Like L marks x

/-- The routines are alike, one by one. -/
def Stmt.LikeRoutines (L : Likeness) (marks : List Bool) :
    List (Routine (Stmt Depth)) → List (Routine (Stmt Depth)) → Prop
  | [], rs => rs = []
  | ⟨name, params, body⟩ :: rest, rs =>
    ∃ b name' params' body' rest', rs = ⟨name', params', body'⟩ :: rest' ∧ L.Same name name'
      ∧ List.Forall₂ (fun p p' => L.Same (L.token b p) p') params params'
      ∧ Stmt.LikeAll L (b :: marks) body body' ∧ Stmt.LikeRoutines L marks rest rest'

end

/-- The routines are alike. -/
def Routine.Like (L : Likeness) (marks : List Bool) (r r' : Routine (Stmt Depth)) : Prop :=
  L.Same r.name r'.name ∧ ∃ b, List.Forall₂ (fun p p' => L.Same (L.token b p) p') r.params r'.params
    ∧ Stmt.LikeAll L (b :: marks) r.body r'.body

/-! ## Trees on other lines -/

section Relined

variable {L : Likeness} {f g : Nat → Nat} {marks : List Bool}

/-- Tokens that are moved to other lines in two ways stand for each other, and no scope is marked. -/
structure Likeness.Moves (L : Likeness) (f g : Nat → Nat) (marks : List Bool) : Prop where
  same : ∀ t : Token, L.Same (t.relined f) (t.relined g)
  unmarked : ∀ b ∈ marks, b = false

namespace Likeness.Moves

lemma push (h : L.Moves f g marks) : L.Moves f g (false :: marks) :=
  ⟨h.same, by simpa using h.unmarked⟩

lemma inClass (h : L.Moves f g marks) (superclass : Option (Reference Depth)) :
    L.Moves f g (Likeness.inClass marks superclass) := by
  cases superclass with
  | none => exact h
  | some ref => exact h.push

lemma mark_eq (h : L.Moves f g marks) (depth : Depth) : Likeness.mark marks depth = false := by
  unfold Likeness.mark
  cases depth with
  | none => rfl
  | some d =>
      cases hd : marks[d]? with
      | none => simp [hd]
      | some b => simp [hd, h.unmarked b (List.mem_of_getElem? hd)]

lemma head (h : L.Moves f g marks) : marks.headD false = false := by
  cases marks with
  | nil => rfl
  | cons b rest => exact h.unmarked b List.mem_cons_self

lemma declared (h : L.Moves f g marks) (name : Token) :
    L.Same (L.token (marks.headD false) (name.relined f)) (name.relined g) := by
  rw [h.head]
  exact h.same name

/-- The names of routines and classes are kept. -/
lemma kept (h : L.Moves f g marks) (name : String) : L.perm (marks.headD false) name = name := by
  rw [h.head]
  rfl

lemma reference (h : L.Moves f g marks) (ref : Reference Depth) :
    (ref.relined f).Like L marks (ref.relined g) :=
  ⟨rfl, by rw [h.mark_eq]; exact h.same ref.name⟩

lemma referenceOption (h : L.Moves f g marks) : ∀ ref : Option (Reference Depth),
    Reference.LikeOption L marks (ref.map (Reference.relined f)) (ref.map (Reference.relined g))
  | none => rfl
  | some ref => ⟨_, rfl, h.reference ref⟩

lemma params (h : L.Moves f g marks) (params : List Token) :
    List.Forall₂ (fun p p' => L.Same (L.token false p) p') (params.map (Token.relined f))
      (params.map (Token.relined g)) := by
  rw [List.forall₂_map_left_iff, List.forall₂_map_right_iff]
  exact List.forall₂_same.mpr fun p _ => h.same p

end Likeness.Moves

mutual

lemma Expr.like_relined (h : L.Moves f g marks) : ∀ e : Expr Depth, (e.relined f).Like L marks (e.relined g)
  | .literal _ => rfl
  | .array items => ⟨_, rfl, Expr.likeAll_relined h items⟩
  | .grouping inner => ⟨_, rfl, Expr.like_relined h inner⟩
  | .unary op operand => ⟨_, _, rfl, h.same op, Expr.like_relined h operand⟩
  | .binary left op right | .logical left op right =>
      ⟨_, _, _, rfl, Expr.like_relined h left, h.same op, Expr.like_relined h right⟩
  | .conditional condition yes no =>
      ⟨_, _, _, rfl, Expr.like_relined h condition, Expr.like_relined h yes, Expr.like_relined h no⟩
  | .variable ref => ⟨_, rfl, h.reference ref⟩
  | .assign ref value => ⟨_, _, rfl, h.reference ref, Expr.like_relined h value⟩
  | .step _ ref => ⟨_, rfl, h.reference ref⟩
  | .call callee paren args =>
      ⟨_, _, _, rfl, Expr.like_relined h callee, h.same paren, Expr.likeAll_relined h args⟩
  | .get object name _ => ⟨_, _, rfl, Expr.like_relined h object, h.same name⟩
  | .set object name value _ =>
      ⟨_, _, _, rfl, Expr.like_relined h object, h.same name, Expr.like_relined h value⟩
  | .receiver ref => ⟨_, rfl, h.reference ref⟩
  | .inherited ref method => ⟨_, _, rfl, h.reference ref, h.same method⟩

lemma Expr.likeAll_relined (h : L.Moves f g marks) : ∀ es : List (Expr Depth),
    Expr.LikeAll L marks (Expr.relinedAll f es) (Expr.relinedAll g es)
  | [] => rfl
  | e :: rest => ⟨_, _, rfl, Expr.like_relined h e, Expr.likeAll_relined h rest⟩

end

lemma Expr.likeOption_relined (h : L.Moves f g marks) : ∀ e : Option (Expr Depth),
    Expr.LikeOption L marks (e.map (Expr.relined f)) (e.map (Expr.relined g))
  | none => rfl
  | some e => ⟨_, rfl, Expr.like_relined h e⟩

lemma ForStart.like_relined (h : L.Moves f g marks) : ∀ start : Option (ForStart Depth),
    ForStart.Like L marks (start.map (ForStart.relined f)) (start.map (ForStart.relined g))
  | none => rfl
  | some (.var name value) => ⟨_, _, rfl, h.declared name, Expr.likeOption_relined h value⟩
  | some (.expr e) => ⟨_, rfl, Expr.like_relined h e⟩

mutual

lemma Stmt.like_relined {marks : List Bool} (h : L.Moves f g marks) : ∀ s : Stmt Depth,
    (s.relined f).Like L marks (s.relined g)
  | .expr e | .echo e => ⟨_, rfl, Expr.like_relined h e⟩
  | .var name value => ⟨_, _, rfl, h.declared name, Expr.likeOption_relined h value⟩
  | .block body => ⟨false, _, rfl, Stmt.likeAll_relined h.push body⟩
  | .exit keyword code => ⟨_, _, rfl, h.same keyword, Expr.like_relined h code⟩
  | .branch condition yes no =>
      ⟨_, _, _, rfl, Expr.like_relined h condition, Stmt.like_relined h yes,
        Stmt.likeOption_relined h no⟩
  | .loop condition body => ⟨_, _, rfl, Expr.like_relined h condition, Stmt.like_relined h body⟩
  | .forLoop start condition after body =>
      ⟨false, _, _, _, _, rfl, ForStart.like_relined h.push start, Expr.like_relined h.push condition,
        Expr.likeOption_relined h.push after, Stmt.like_relined h.push body⟩
  | .step _ ref => ⟨_, rfl, h.reference ref⟩
  | .jump _ _ => ⟨_, rfl⟩
  | .routine ⟨name, params, body⟩ =>
      ⟨false, _, _, _, rfl, h.kept _, h.same name, h.params params, Stmt.likeAll_relined h.push body⟩
  | .giveBack _ value => ⟨_, _, rfl, Expr.likeOption_relined h value⟩
  | .classDecl name superclass methods statics getters setters =>
      have hinner : L.Moves f g (Likeness.inClass marks (superclass.map (Reference.relined f))) :=
        h.inClass _
      ⟨_, _, _, _, _, _, rfl, h.kept _, h.same name, h.referenceOption superclass,
        Stmt.likeRoutines_relined hinner.push methods, Stmt.likeRoutines_relined hinner statics,
        Stmt.likeRoutines_relined hinner.push getters, Stmt.likeRoutines_relined hinner.push setters⟩

lemma Stmt.likeAll_relined {marks : List Bool} (h : L.Moves f g marks) : ∀ ss : List (Stmt Depth),
    Stmt.LikeAll L marks (Stmt.relinedAll f ss) (Stmt.relinedAll g ss)
  | [] => rfl
  | s :: rest => ⟨_, _, rfl, Stmt.like_relined h s, Stmt.likeAll_relined h rest⟩

lemma Stmt.likeOption_relined {marks : List Bool} (h : L.Moves f g marks) : ∀ s : Option (Stmt Depth),
    Stmt.LikeOption L marks (Stmt.relinedOption f s) (Stmt.relinedOption g s)
  | none => rfl
  | some s => ⟨_, rfl, Stmt.like_relined h s⟩

lemma Stmt.likeRoutines_relined {marks : List Bool} (h : L.Moves f g marks) :
    ∀ rs : List (Routine (Stmt Depth)),
      Stmt.LikeRoutines L marks (Stmt.relinedRoutines f rs) (Stmt.relinedRoutines g rs)
  | [] => rfl
  | ⟨name, params, body⟩ :: rest =>
      ⟨false, _, _, _, _, rfl, h.same name, h.params params, Stmt.likeAll_relined h.push body,
        Stmt.likeRoutines_relined h rest⟩

end

/-- Where tokens stand for themselves, statements are like themselves. -/
lemma Stmt.likeAll_refl (hsame : ∀ t : Token, L.Same t t) (hmarks : ∀ b ∈ marks, b = false)
    (ss : List (Stmt Depth)) : Stmt.LikeAll L marks ss ss := by
  have h : L.Moves id id marks := ⟨hsame, hmarks⟩
  simpa only [Stmt.relinedAll_id] using Stmt.likeAll_relined h ss

end Relined

end KScript

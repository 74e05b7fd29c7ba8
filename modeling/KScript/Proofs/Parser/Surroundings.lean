import KScript.Proofs.Parser.Placed
import KScript.Proofs.Scope.Places
import Mathlib

/-!
# What a phrase says of its surroundings

Two things in a tree depend on what is around them: a jump needs a loop to leave or to go on with, and the
flag of a `.` tells whether it is written in a class.  The parser decides both by a context that it hands
down, also while it recovers from errors.

Here the same is said of the tree that comes out, without contexts: `Program.Below` gives the phrases that
a phrase stands in, from the innermost to the statement of the top level.  In every tree that the parser
returns, malformed script or not, each jump has the body of a loop around it with no routine in between, and
each flag tells whether a class is among the phrases around (`Parsed.surroundings_right`).
-/

namespace KScript

open KScript.Parser (Item Tree Group Grammar Yields)

variable {β : Type}

/-! ## Phrases and what is around them -/

/-- The phrase stands in the program inside those phrases, innermost first. -/
inductive Program.Below (program : Program β) : List (Phrase β) → Phrase β → Prop where
  | top {s : Stmt β} (hs : s ∈ program) : Below program [] (.stmt s)
  | part {above : List (Phrase β)} {p q : Phrase β} (hp : Below program above p)
      (hq : q ∈ p.parts) : Below program (p :: above) q

/-- The body of a loop. -/
def Stmt.loopBody? : Stmt β → Option (Stmt β)
  | .loop _ body => some body
  | .forLoop _ _ _ body => some body
  | _ => none

/-- The flag of a property that is read or written. -/
def Expr.flag? : Expr β → Option Bool
  | .get _ _ inside => some inside
  | .set _ _ _ inside => some inside
  | _ => none

namespace Phrase

/-- The routines that a phrase itself declares. -/
def routines : Phrase β → List (Routine (Stmt β))
  | expr _ => []
  | stmt s => s.ownRoutines

/-- The phrase is a class. -/
def isClass : Phrase β → Bool
  | stmt (.classDecl ..) => true
  | _ => false

/-- Going outwards from the phrase, the body of a loop comes before any routine. -/
def InLoop (above : List (Phrase β)) (p : Phrase β) : Prop :=
  ∃ between loop body outer, above = between ++ .stmt loop :: outer
    ∧ loop.loopBody? = some body ∧ (p :: between).getLast? = some (.stmt body)
    ∧ ∀ q ∈ between, q.routines = []

lemma InLoop.body {loop body : Stmt β} (h : loop.loopBody? = some body) (above : List (Phrase β)) :
    InLoop (.stmt loop :: above) (.stmt body) :=
  ⟨[], loop, body, above, rfl, h, rfl, by simp⟩

/-- What stands in a phrase that is in a loop is in that loop, unless the phrase is a routine. -/
lemma InLoop.part {above : List (Phrase β)} {p : Phrase β} (h : InLoop above p)
    (hp : p.routines = []) (q : Phrase β) : InLoop (p :: above) q := by
  obtain ⟨between, loop, body, outer, rfl, hbody, hlast, hbetween⟩ := h
  refine ⟨p :: between, loop, body, outer, rfl, hbody, ?_, List.forall_mem_cons.mpr ⟨hp, hbetween⟩⟩
  rw [List.getLast?_cons_cons, hlast]

end Phrase

/-! ## Trees that fit a context -/

/-- Every property in the expression has the flag. -/
inductive Expr.Flagged (inside : Bool) : Expr β → Prop where
  | intro {e : Expr β} (own : ∀ flag ∈ e.flag?, flag = inside)
      (operands : ∀ part ∈ e.operands, Flagged inside part) : Flagged inside e

lemma Expr.Flagged.of {inside : Bool} {e : Expr β} (hnone : e.flag? = none)
    (h : ∀ part ∈ e.operands, part.Flagged inside) : e.Flagged inside :=
  .intro (by simp [hnone]) h

/-- Every jump and every property in the statement fits the context that the statement is read in. -/
inductive Stmt.Flagged : Parser.Context → Stmt β → Prop where
  | expr {context : Parser.Context} {e : Expr β} (h : e.Flagged context.inClass) :
      Flagged context (.expr e)
  | var {context : Parser.Context} {name : Token} {value : Option (Expr β)}
      (h : ∀ e ∈ value, e.Flagged context.inClass) : Flagged context (.var name value)
  | block {context : Parser.Context} {body : List (Stmt β)} (h : ∀ s ∈ body, Flagged context s) :
      Flagged context (.block body)
  | exit {context : Parser.Context} {keyword : Token} {code : Expr β}
      (h : code.Flagged context.inClass) : Flagged context (.exit keyword code)
  | branch {context : Parser.Context} {test : Expr β} {yes : Stmt β} {no : Option (Stmt β)}
      (htest : test.Flagged context.inClass) (hyes : Flagged context yes)
      (hno : ∀ s ∈ no, Flagged context s) : Flagged context (.branch test yes no)
  | loop {context : Parser.Context} {test : Expr β} {body : Stmt β}
      (htest : test.Flagged context.inClass) (hbody : Flagged { context with inLoop := true } body) :
      Flagged context (.loop test body)
  | forLoop {context : Parser.Context} {start : Option (ForStart β)} {test : Expr β}
      {after : Option (Expr β)} {body : Stmt β} (hstart : ∀ s ∈ start, Flagged context s.toStmt)
      (htest : test.Flagged context.inClass) (hafter : ∀ e ∈ after, e.Flagged context.inClass)
      (hbody : Flagged { context with inLoop := true } body) :
      Flagged context (.forLoop start test after body)
  | step {context : Parser.Context} {direction : Direction} {ref : Reference β} :
      Flagged context (.step direction ref)
  | jump {context : Parser.Context} {jump : Jump} {keyword : Token} (h : context.inLoop = true) :
      Flagged context (.jump jump keyword)
  | routine {context : Parser.Context} {decl : Routine (Stmt β)}
      (h : ∀ s ∈ decl.body, Flagged { context with inLoop := false } s) :
      Flagged context (.routine decl)
  | giveBack {context : Parser.Context} {keyword : Token} {value : Option (Expr β)}
      (h : ∀ e ∈ value, e.Flagged context.inClass) : Flagged context (.giveBack keyword value)
  | classDecl {context : Parser.Context} {name : Token} {superclass : Option (Reference β)}
      {methods statics getters setters : List (Routine (Stmt β))}
      (h : ∀ r ∈ methods ++ statics ++ getters ++ setters, ∀ s ∈ r.body, Flagged ⟨false, true⟩ s) :
      Flagged context (.classDecl name superclass methods statics getters setters)

/-- The same for phrases. -/
def Phrase.Flagged (context : Parser.Context) : Phrase β → Prop
  | expr e => e.Flagged context.inClass
  | stmt s => s.Flagged context

/-! ## From contexts to surroundings -/

/-- The context says what is around the phrase. -/
structure Parser.Context.Tells (context : Parser.Context) (above : List (Phrase β)) (p : Phrase β) :
    Prop where
  inClass : context.inClass = above.any Phrase.isClass
  inLoop : context.inLoop = true → Phrase.InLoop above p

namespace Parser.Context.Tells

variable {context : Parser.Context} {above : List (Phrase β)} {p q : Phrase β}

/-- An expression is in no need of a loop. -/
lemma outside (h : context.Tells above p) (hp : p.isClass = false) :
    Tells { context with inLoop := false } (p :: above) q :=
  ⟨by simp [hp, h.inClass], nofun⟩

lemma inner (h : context.Tells above p) (hp : p.isClass = false) (hroutines : p.routines = []) :
    context.Tells (p :: above) q :=
  ⟨by simp [hp, h.inClass], fun hloop => (h.inLoop hloop).part hroutines q⟩

lemma ofBody {loop body : Stmt β} (h : context.Tells above (.stmt loop))
    (hbody : loop.loopBody? = some body) :
    Tells { context with inLoop := true } (.stmt loop :: above) (.stmt body) := by
  refine ⟨?_, fun _ => .body hbody above⟩
  cases loop with
  | loop _ _ | forLoop _ _ _ _ => exact h.inClass
  | _ => cases hbody

/-- In a class, outside of the loops around it. -/
lemma ofClass (hp : p.isClass = true) : Tells ⟨false, true⟩ (p :: above) q := ⟨by simp [hp], nofun⟩

end Parser.Context.Tells

/-- The statements of routines, without the constructs around them. -/
lemma Routine.mem_phrases {role : Role} {outer entered : List Construct} {q : Phrase β}
    {rs : List (Routine (Stmt β))} (h : (entered, q) ∈ Routine.phrases role outer rs) :
    ∃ r ∈ rs, ∃ s ∈ r.body, q = .stmt s := by
  obtain ⟨r, hr, h⟩ := List.mem_flatMap.mp h
  obtain ⟨s, hs, heq⟩ := List.mem_map.mp h
  exact ⟨r, hr, s, hs, (Prod.mk.inj heq).2.symm⟩

/-- **One step inwards**: each part of a phrase fits a context that says what is around the part. -/
lemma Phrase.Flagged.part {context : Parser.Context} {above : List (Phrase β)} {p q : Phrase β}
    (h : p.Flagged context) (htells : context.Tells above p) (hq : q ∈ p.parts) :
    ∃ inner : Parser.Context, q.Flagged inner ∧ inner.Tells (p :: above) q := by
  obtain ⟨⟨entered, q⟩, hbelow, rfl⟩ := List.mem_map.mp hq
  clear hq
  -- an expression fits every context with the right flag
  have hexpr {e : Expr β} (hp : p.isClass = false) (he : e.Flagged context.inClass) :
      ∃ inner : Parser.Context, Phrase.Flagged inner (.expr e) ∧ inner.Tells (p :: above) (.expr e) :=
    ⟨{ context with inLoop := false }, he, htells.outside hp⟩
  cases p with
  | expr e =>
      obtain ⟨part, hpart, heq⟩ := List.mem_map.mp hbelow
      obtain ⟨-, rfl⟩ := Prod.mk.inj heq
      obtain ⟨-, hoperands⟩ := h
      exact hexpr rfl (hoperands part hpart)
  | stmt s =>
      cases h with
      | expr he | exit he =>
          obtain ⟨-, rfl⟩ := Prod.mk.inj (List.mem_singleton.mp hbelow)
          exact hexpr rfl he
      | var hvalue | giveBack hvalue =>
          obtain ⟨e, he, heq⟩ := List.mem_map.mp hbelow
          obtain ⟨-, rfl⟩ := Prod.mk.inj heq
          exact hexpr rfl (hvalue e (Option.mem_toList.mp he))
      | block hbody =>
          obtain ⟨s, hs, heq⟩ := List.mem_map.mp hbelow
          obtain ⟨-, rfl⟩ := Prod.mk.inj heq
          exact ⟨context, hbody s hs, htells.inner rfl rfl⟩
      | branch htest hyes hno =>
          rcases List.mem_cons.mp hbelow with heq | hbelow
          · obtain ⟨-, rfl⟩ := Prod.mk.inj heq
            exact hexpr rfl htest
          rcases List.mem_cons.mp hbelow with heq | hbelow
          · obtain ⟨-, rfl⟩ := Prod.mk.inj heq
            exact ⟨context, hyes, htells.inner rfl rfl⟩
          · obtain ⟨s, hs, heq⟩ := List.mem_map.mp hbelow
            obtain ⟨-, rfl⟩ := Prod.mk.inj heq
            exact ⟨context, hno s (Option.mem_toList.mp hs), htells.inner rfl rfl⟩
      | loop htest hbody =>
          rcases List.mem_cons.mp hbelow with heq | hbelow
          · obtain ⟨-, rfl⟩ := Prod.mk.inj heq
            exact hexpr rfl htest
          · obtain ⟨-, rfl⟩ := Prod.mk.inj (List.mem_singleton.mp hbelow)
            exact ⟨_, hbody, htells.ofBody rfl⟩
      | forLoop hstart htest hafter hbody =>
          rcases List.mem_append.mp hbelow with hbelow | hbelow
          · obtain ⟨s, hs, heq⟩ := List.mem_map.mp hbelow
            obtain ⟨-, rfl⟩ := Prod.mk.inj heq
            exact ⟨context, hstart s (Option.mem_toList.mp hs), htells.inner rfl rfl⟩
          rcases List.mem_cons.mp hbelow with heq | hbelow
          · obtain ⟨-, rfl⟩ := Prod.mk.inj heq
            exact hexpr rfl htest
          rcases List.mem_cons.mp hbelow with heq | hbelow
          · obtain ⟨-, rfl⟩ := Prod.mk.inj heq
            exact ⟨_, hbody, htells.ofBody rfl⟩
          · obtain ⟨e, he, heq⟩ := List.mem_map.mp hbelow
            obtain ⟨-, rfl⟩ := Prod.mk.inj heq
            exact hexpr rfl (hafter e (Option.mem_toList.mp he))
      | step | jump _ => cases hbelow
      | routine hbody =>
          obtain ⟨r, hr, s, hs, rfl⟩ := Routine.mem_phrases hbelow
          obtain rfl := List.mem_singleton.mp hr
          exact ⟨_, hbody s hs, htells.outside rfl⟩
      | classDecl hbody =>
          simp only [Phrase.below, Stmt.phrases, List.mem_append] at hbelow
          simp only [List.forall_mem_append] at hbody
          obtain ⟨⟨⟨hm, hs⟩, hg⟩, ht⟩ := hbody
          rcases hbelow with (((hbelow | hbelow) | hbelow) | hbelow) | hbelow
          · obtain ⟨ref, _, heq⟩ := List.mem_map.mp hbelow
            obtain ⟨-, rfl⟩ := Prod.mk.inj heq
            exact ⟨⟨false, true⟩, .of rfl (by simp [Expr.operands]), .ofClass rfl⟩
          all_goals obtain ⟨r, hr, s, hbody, rfl⟩ := Routine.mem_phrases hbelow
          · exact ⟨_, hm r hr s hbody, .ofClass rfl⟩
          · exact ⟨_, hs r hr s hbody, .ofClass rfl⟩
          · exact ⟨_, hg r hr s hbody, .ofClass rfl⟩
          · exact ⟨_, ht r hr s hbody, .ofClass rfl⟩

/-- Wherever a phrase stands in a program that fits the top level, it fits a context that says what is
around it. -/
theorem Program.Below.flagged {program : Program β} {above : List (Phrase β)} {p : Phrase β}
    (h : program.Below above p) (hprogram : ∀ s ∈ program, s.Flagged Parser.topLevel) :
    ∃ context : Parser.Context, p.Flagged context ∧ context.Tells above p := by
  induction h with
  | top hs => exact ⟨_, hprogram _ hs, rfl, nofun⟩
  | part _ hq ih =>
      obtain ⟨context, hflagged, htells⟩ := ih
      exact hflagged.part htells hq

namespace Parser

/-! ## Expressions that the parser answers -/

section

variable {α : Type} {P : α → Prop}

lemma Yields.commaSeparated {item : Parser α} (h : Yields item P) (listing : Listing) :
    ∀ fuel count, Yields (commaSeparated listing item fuel count) fun items => ∀ a ∈ items, P a
  | 0, _ => .throw _
  | fuel + 1, count => by
      rw [Parser.commaSeparated]
      split
      refine .after fun _ => .after fun _ => ?_
      -- beyond the limit and below it the same items follow
      all_goals
        refine .bind h fun first hfirst => .after fun comma => ?_
        split
        · exact .bind (h.commaSeparated listing fuel (count + 1)) fun more hmore =>
            .pure (List.forall_mem_cons.mpr ⟨hfirst, hmore⟩)
        · exact .pure (by simpa using hfirst)

lemma Yields.listUpTo {item : Parser α} (h : Yields item P) (listing : Listing) (close : Kind)
    (fuel : Nat) : Yields (listUpTo listing close fuel item) fun items => ∀ a ∈ items, P a := by
  refine .after fun empty => ?_
  split
  · exact .pure (by simp)
  · exact h.commaSeparated listing fuel 0

end

variable {inside : Bool} {enter : Entry → Parser Tree}

/-- Operators that take two operands keep the flags of both. -/
lemma leftRest_flagged {operand : Parser Tree} {kinds : List Kind} {join : Tree → Token → Tree → Tree}
    (hjoin : ∀ l op r, l.Flagged inside → r.Flagged inside → (join l op r).Flagged inside)
    (h : Yields operand (Expr.Flagged inside)) (fuel : Nat) {left : Tree} (hleft : left.Flagged inside) :
    Yields (leftRest operand kinds join fuel left) (Expr.Flagged inside) := by
  induction fuel generalizing left with
  | zero => exact .pure hleft
  | succ fuel ih =>
      refine .after fun op => ?_
      split
      · exact .bind h fun right hright => ih (hjoin left _ right hleft hright)
      · exact .pure hleft

lemma leftLevel_flagged {operand : Parser Tree} {kinds : List Kind} {join : Tree → Token → Tree → Tree}
    (hjoin : ∀ l op r, l.Flagged inside → r.Flagged inside → (join l op r).Flagged inside)
    (h : Yields operand (Expr.Flagged inside)) (fuel : Nat) :
    Yields (leftLevel fuel kinds join operand) (Expr.Flagged inside) :=
  .bind h fun _ hleft => leftRest_flagged hjoin h fuel hleft

lemma binary_flagged (l : Tree) (op : Token) (r : Tree) (hl : l.Flagged inside)
    (hr : r.Flagged inside) : (Expr.binary l op r).Flagged inside :=
  .of rfl (by simpa [Expr.operands] using ⟨hl, hr⟩)

lemma logical_flagged (l : Tree) (op : Token) (r : Tree) (hl : l.Flagged inside)
    (hr : r.Flagged inside) : (Expr.logical l op r).Flagged inside :=
  .of rfl (by simpa [Expr.operands] using ⟨hl, hr⟩)

lemma primary_flagged (henter : ∀ entry, Yields (enter entry) (Expr.Flagged inside)) (fuel : Nat) :
    Yields (primary enter fuel) fun r => r.1.Flagged inside := by
  have hleaf {e : Tree} {t : Token} (hflag : e.flag? = none) (hnil : e.operands = []) :
      Yields (Pure.pure (e, t)) fun r : Tree × Token => r.1.Flagged inside :=
    .pure (.of hflag (by simp [hnil]))
  refine .after fun next => ?_
  split
  · next t =>
      generalize t.kind = kind
      cases kind
      case falseWord | trueWord | zilchWord | infWord | number | string | thisWord | identifier =>
        exact .after fun _ => hleaf rfl rfl
      case leftSquare =>
        refine .after fun _ => .bind ((henter .disjunction).listUpTo _ _ _) fun items hitems => ?_
        exact .after fun _ => .pure (.of rfl hitems)
      case superWord => exact .after fun _ => .after fun _ => .after fun _ => hleaf rfl rfl
      case leftParen =>
        refine .after fun _ => .bind (henter .expression) fun inner hinner => ?_
        exact .after fun _ => .pure (.of rfl (by simpa [Expr.operands] using hinner))
      all_goals exact .after fun _ => .fail _ _
  · exact .after fun _ => .fail _ _

/-- The target of a counting step that is no variable is answered as it is. -/
lemma stepped_flagged (henter : ∀ entry, Yields (enter entry) (Expr.Flagged inside)) (fuel : Nat) :
    Yields (stepped enter fuel) (Expr.Flagged inside) := by
  refine .after fun word => ?_
  split
  · exact .bind (primary_flagged henter fuel) fun _ hr => .pure hr
  · refine .bind (primary_flagged henter fuel) fun r hr => ?_
    split
    · exact .pure (.of rfl (by simp [Expr.operands]))
    · exact .after fun _ => .pure hr

lemma suffixes_flagged (henter : ∀ entry, Yields (enter entry) (Expr.Flagged inside)) (bound fuel : Nat)
    {e : Tree} (he : e.Flagged inside) :
    Yields (suffixes enter inside bound fuel e) (Expr.Flagged inside) := by
  induction fuel generalizing e with
  | zero => exact .pure he
  | succ fuel ih =>
      refine .after fun opener => ?_
      split
      · exact .pure he
      · split
        · refine .bind ((henter .expression).listUpTo _ _ _) fun args hargs => .after fun paren => ?_
          exact ih (.of rfl (List.forall_mem_cons.mpr ⟨he, hargs⟩))
        · refine .after fun name => ih (.intro ?_ (by simpa [Expr.operands] using he))
          rintro flag ⟨⟩
          rfl

lemma unaryLevel_flagged (henter : ∀ entry, Yields (enter entry) (Expr.Flagged inside)) (fuel : Nat) :
    Yields (unaryLevel enter inside fuel) (Expr.Flagged inside) := by
  refine .after fun op => ?_
  split
  · exact .bind (henter .unary) fun operand h => .pure (.of rfl (by simpa [Expr.operands] using h))
  · exact .bind (stepped_flagged henter fuel) fun e he => suffixes_flagged henter fuel fuel he

lemma conditionalLevel_flagged (henter : ∀ entry, Yields (enter entry) (Expr.Flagged inside))
    (fuel : Nat) : Yields (conditionalLevel enter inside fuel) (Expr.Flagged inside) := by
  have hequality : Yields (equalityLevel enter inside fuel) (Expr.Flagged inside) :=
    leftLevel_flagged binary_flagged (leftLevel_flagged binary_flagged (leftLevel_flagged binary_flagged
      (leftLevel_flagged binary_flagged (leftLevel_flagged binary_flagged
        (unaryLevel_flagged henter fuel) fuel) fuel) fuel) fuel) fuel
  refine .bind hequality fun condition hcondition => .after fun question => ?_
  split
  · exact .pure hcondition
  · refine .bind (henter .expression) fun yes hyes => .after fun _ => ?_
    exact .bind (henter .expression) fun no hno =>
      .pure (.of rfl (by simpa [Expr.operands] using ⟨hcondition, hyes, hno⟩))

lemma disjunctionLevel_flagged (henter : ∀ entry, Yields (enter entry) (Expr.Flagged inside))
    (fuel : Nat) : Yields (disjunctionLevel enter inside fuel) (Expr.Flagged inside) :=
  leftLevel_flagged logical_flagged
    (leftLevel_flagged logical_flagged (conditionalLevel_flagged henter fuel) fuel) fuel

lemma assignment?_flagged {target value e : Tree} {equals : Token} (htarget : target.Flagged inside)
    (hvalue : value.Flagged inside) (h : assignment? inside target equals value = some e) :
    e.Flagged inside := by
  unfold assignment? at h
  split at h
  · cases h
    exact .of rfl (by simpa [Expr.operands] using hvalue)
  · cases h
    have hcompound := fun op => binary_flagged _ op value htarget hvalue
    exact .of rfl (by simpa [Expr.operands] using hcompound _)
  · next object name _ _ =>
      cases h
      obtain ⟨-, hobject⟩ := htarget
      refine .intro (by rintro flag ⟨⟩; rfl) ?_
      simpa [Expr.operands] using ⟨hobject object (by simp [Expr.operands]), hvalue⟩
  · cases h

/-- A target that cannot be assigned to is answered as it is. -/
lemma assignmentLevel_flagged (henter : ∀ entry, Yields (enter entry) (Expr.Flagged inside))
    (fuel : Nat) : Yields (assignmentLevel enter inside fuel) (Expr.Flagged inside) := by
  refine .bind (disjunctionLevel_flagged henter fuel) fun target htarget => .after fun equals => ?_
  split
  · exact .pure htarget
  · refine .bind (henter .expression) fun value hvalue => ?_
    split
    · next e he => exact .pure (assignment?_flagged htarget hvalue he)
    · exact .after fun _ => .pure htarget

lemma expressionAt_flagged (inside : Bool) :
    ∀ fuel entry, Yields (expressionAt inside fuel entry) (Expr.Flagged inside)
  | 0, _ => .throw _
  | fuel + 1, .expression => assignmentLevel_flagged (expressionAt_flagged inside fuel) fuel
  | fuel + 1, .disjunction => disjunctionLevel_flagged (expressionAt_flagged inside fuel) fuel
  | fuel + 1, .unary => unaryLevel_flagged (expressionAt_flagged inside fuel) fuel

lemma expression_flagged (inside : Bool) : Yields (expression inside) (Expr.Flagged inside) :=
  fun c => expressionAt_flagged inside _ .expression c

/-! ## Statements that the parser answers -/

/-- What the grammar enters itself for. -/
structure Grammar.Keeps (g : Grammar) : Prop where
  statement : ∀ context, Yields (g.statement context) (Stmt.Flagged context)
  declaration : ∀ context, Yields (g.declaration context) fun s => ∀ x ∈ s, x.Flagged context

variable {g : Grammar} {context : Context}

lemma varRest_flagged : Yields (varRest context) fun r => ∀ e ∈ r.2, e.Flagged context.inClass := by
  refine .after fun name => .after fun equals => ?_
  split
  · refine .bind (P := fun value => ∀ e ∈ value, e.Flagged context.inClass) ?_ fun value hvalue =>
      .after fun _ => .pure hvalue
    rw [← bind_pure_comp]
    exact .bind (expression_flagged _) fun e he => .pure (by simpa using he)
  · refine .bind (P := (· = none)) (.pure rfl) fun value hvalue => .after fun _ => .pure ?_
    simp [hvalue]

lemma valueRest_flagged : Yields (valueRest context) (Expr.Flagged context.inClass) :=
  .bind (expression_flagged _) fun _ he => .after fun _ => .pure he

lemma condition_flagged (opening : Expected) :
    Yields (condition opening context) (Expr.Flagged context.inClass) :=
  .after fun _ => .bind (expression_flagged _) fun _ he => .after fun _ => .pure he

lemma expressionUnless_flagged (close : Kind) :
    Yields (expressionUnless close context) fun o => ∀ e ∈ o, e.Flagged context.inClass := by
  refine .after fun closed => ?_
  split
  · exact .pure (by simp)
  · exact .bind (expression_flagged _) fun e he => .pure (by simpa using he)

lemma forStart_flagged :
    Yields (forStart context) fun start => ∀ s ∈ start, s.toStmt.Flagged context := by
  refine .after fun word => ?_
  split
  · refine .bind valueRest_flagged fun e he => .pure ?_
    rintro s ⟨⟩
    exact .expr he
  · split
    · exact .pure (by simp)
    · refine .bind varRest_flagged fun r hr => .pure ?_
      rintro s ⟨⟩
      exact .var hr

namespace Grammar.Keeps

lemma classRest (h : g.Keeps) (fuel : Nat) : Yields (classRest g fuel context) (Stmt.Flagged context) := by
  refine .after fun name => .after fun extended => ?_
  -- with a superclass or without, the same members follow
  split <;>
  · refine .after fun superclass => .after fun _ => ?_
    refine .bind ((h.declaration _).members fuel fuel) fun all hall => .after fun _ =>
      .pure (.classDecl ?_)
    have hgroup := forall_ofGroup hall
    simp only [List.forall_mem_append]
    exact ⟨⟨⟨hgroup _, hgroup _⟩, hgroup _⟩, hgroup _⟩

lemma branchRest (h : g.Keeps) : Yields (branchRest g context) (Stmt.Flagged context) := by
  refine .bind (condition_flagged _) fun test htest => .bind (h.statement context) fun yes hyes =>
    .after fun word => ?_
  split
  · exact .bind (h.statement context) fun no hno => .pure (.branch htest hyes (by simpa using hno))
  · exact .pure (.branch htest hyes (by simp))

lemma loopRest (h : g.Keeps) : Yields (loopRest g context) (Stmt.Flagged context) :=
  .bind (condition_flagged _) fun _ htest => .bind (h.statement _) fun _ hbody =>
    .pure (.loop htest hbody)

lemma forRest (h : g.Keeps) : Yields (forRest g context) (Stmt.Flagged context) := by
  refine .after fun _ => .bind forStart_flagged fun start hstart => ?_
  refine .bind (expressionUnless_flagged _) fun test htest => .after fun _ => ?_
  refine .bind (expressionUnless_flagged _) fun after hafter => .after fun _ => ?_
  refine .bind (h.statement _) fun body hbody => .pure (.forLoop hstart ?_ hafter hbody)
  cases test with
  | none => exact .of rfl (by simp [Expr.operands])
  | some e => exact htest e rfl

lemma exitRest (keyword : Token) : Yields (exitRest keyword context) (Stmt.Flagged context) := by
  refine .after fun semicolon => ?_
  split
  · exact .pure (.exit (.of rfl (by simp [Expr.operands])))
  · exact .bind valueRest_flagged fun _ he => .pure (.exit he)

/-- A jump outside of every loop is refused. -/
lemma jumpRest (keyword : Token) (jump : Jump) :
    Yields (jumpRest keyword jump context) (Stmt.Flagged context) := by
  unfold Parser.jumpRest
  split
  · next hloop => exact .after fun _ => .pure (.jump hloop)
  · exact .fail _ _

lemma ofStatement (h : g.Keeps) (fuel : Nat) :
    Yields (Parser.statement g fuel context) (Stmt.Flagged context) := by
  refine .after fun word => ?_
  split
  · exact .bind valueRest_flagged fun _ he => .pure (.expr he)
  · split
    · exact h.branchRest
    · exact h.loopRest
    · exact h.forRest
    · exact exitRest _
    · exact .bind (expressionUnless_flagged _) fun _ hvalue => .after fun _ => .pure (.giveBack hvalue)
    · exact jumpRest _ _
    · exact jumpRest _ _
    · exact .bind ((h.declaration _).block fuel) fun _ hbody => .pure (.block hbody)
    · exact .after fun _ => .after fun _ => .pure .step

lemma declarationOrStatement (h : g.Keeps) (fuel : Nat) :
    Yields (declarationOrStatement g fuel context) (Stmt.Flagged context) := by
  refine .after fun word => ?_
  split
  · exact h.ofStatement fuel
  · split
    · exact h.classRest fuel
    · exact .bind ((h.declaration _).routine fuel _) fun _ hr => .pure (.routine hr)
    · exact .bind varRest_flagged fun _ hr => .pure (.var hr)

end Grammar.Keeps

/-- **Every level of the grammar answers what fits its context.** -/
theorem keeps (fuel : Nat) : Grammar.Keeps ⟨statementAt fuel, declarationAt fuel⟩ := by
  induction fuel with
  | zero => exact ⟨fun _ => .throw _, fun _ => .throw _⟩
  | succ fuel ih => exact ⟨fun _ => ih.ofStatement fuel, fun _ => .declaration (ih.declarationOrStatement fuel)⟩

theorem program_flagged (fuel : Nat) :
    Yields (program fuel) fun items => ∀ s ∈ items, s.Flagged topLevel :=
  .program (fun fuel => (keeps fuel).declaration topLevel) fuel

end Parser

namespace Parsed

/-- In every parsed script, malformed or not, the statements fit the top level. -/
lemma flagged (tokens : List Token) (endLine : Nat) (reports : List Diagnostic) :
    ∀ s ∈ (ofTokens tokens endLine reports).program, s.Flagged Parser.topLevel := by
  unfold ofTokens
  split
  · next program c hrun => exact Parser.program_flagged _ _ _ _ hrun
  · simp

/-- **Jumps and flags are right, whatever was wrong with the script.**  For all tokens, in the statements
that are left after recovery:

- every jump stands in the body of a loop, with no routine between the two;
- the flag of every property that is read or written is set exactly if it stands in a class. -/
theorem surroundings_right (tokens : List Token) (endLine : Nat) (reports : List Diagnostic)
    (above : List (Phrase Unit)) :
    let program := (ofTokens tokens endLine reports).program
    (∀ jump keyword, program.Below above (.stmt (.jump jump keyword)) →
        ∃ between loop body outer, above = between ++ .stmt loop :: outer
          ∧ loop.loopBody? = some body
          ∧ (.stmt (.jump jump keyword) :: between).getLast? = some (.stmt body)
          ∧ ∀ q ∈ between, q.routines = [])
      ∧ (∀ object name inside, program.Below above (.expr (.get object name inside)) →
          (inside = true ↔ ∃ q ∈ above, q.isClass = true))
      ∧ ∀ object name value inside, program.Below above (.expr (.set object name value inside)) →
          (inside = true ↔ ∃ q ∈ above, q.isClass = true) := by
  intro program
  have hcontext {p : Phrase Unit} (hp : program.Below above p) :=
    hp.flagged (flagged tokens endLine reports)
  refine ⟨fun jump keyword hp => ?_, fun object name inside hp => ?_,
    fun object name value inside hp => ?_⟩
  · obtain ⟨context, hflagged, htells⟩ := hcontext hp
    cases hflagged with
    | jump hloop => exact htells.inLoop hloop
  · obtain ⟨context, ⟨hown, -⟩, htells⟩ := hcontext hp
    rw [hown inside rfl, htells.inClass, List.any_eq_true]
  · obtain ⟨context, ⟨hown, -⟩, htells⟩ := hcontext hp
    rw [hown inside rfl, htells.inClass, List.any_eq_true]

/-- A word of the first line. -/
def wordOf (kind : Kind) (lexeme : String) : Token := ⟨kind, lexeme, none, 1⟩

/-- A class with a stray parenthesis, `while (o.p) { ); break; }` in its method. -/
def strayTokens : List Token :=
  [wordOf .classWord "class", wordOf .identifier "A", wordOf .leftBrace "\x7b",
   wordOf .identifier "m", wordOf .leftParen "(", wordOf .rightParen ")", wordOf .leftBrace "\x7b",
   wordOf .whileWord "while", wordOf .leftParen "(", wordOf .identifier "o", wordOf .dot ".",
   wordOf .identifier "p", wordOf .rightParen ")", wordOf .leftBrace "\x7b",
   wordOf .rightParen ")", wordOf .semicolon ";", wordOf .breakWord "break", wordOf .semicolon ";",
   wordOf .rightBrace "\x7d", wordOf .rightBrace "\x7d", wordOf .rightBrace "\x7d"]

/-- What is left of the body of the loop. -/
def strayBody : Stmt Unit := .block [.jump .breakLoop (wordOf .breakWord "break")]

def strayLoop : Stmt Unit :=
  .loop (.get (.variable ⟨wordOf .identifier "o", ()⟩) (wordOf .identifier "p") true) strayBody

def strayClass : Stmt Unit :=
  .classDecl (wordOf .identifier "A") none [⟨wordOf .identifier "m", [], [strayLoop]⟩] [] [] []

lemma program_strayTokens : (ofTokens strayTokens 1 []).program = [strayClass] := by cbv

theorem surroundings_right_strayTokens :
    let above : List (Phrase Unit) := [.stmt strayLoop, .stmt strayClass]
    let jump : Phrase Unit := .stmt (.jump .breakLoop (wordOf .breakWord "break"))
    let property : Phrase Unit :=
      .expr (.get (.variable ⟨wordOf .identifier "o", ()⟩) (wordOf .identifier "p") true)
    (ofTokens strayTokens 1 []).reports ≠ []
      ∧ (ofTokens strayTokens 1 []).program.Below (.stmt strayBody :: above) jump
      ∧ Phrase.InLoop (.stmt strayBody :: above) jump
      ∧ (ofTokens strayTokens 1 []).program.Below above property
      ∧ ∃ q ∈ above, q.isClass = true := by
  intro above jump property
  have hclass : (ofTokens strayTokens 1 []).program.Below [] (.stmt strayClass) :=
    .top (by rw [program_strayTokens]; exact List.mem_singleton_self _)
  have hloop := hclass.part (q := .stmt strayLoop)
    (by simp [Phrase.parts, Phrase.below, Stmt.phrases, Routine.phrases, strayClass])
  have hbody := hloop.part (q := .stmt strayBody)
    (by simp [Phrase.parts, Phrase.below, Stmt.phrases, strayLoop])
  have hjump := hbody.part (q := jump)
    (by simp [Phrase.parts, Phrase.below, Stmt.phrases, strayBody, jump])
  have hproperty := hloop.part (q := property)
    (by simp [Phrase.parts, Phrase.below, Stmt.phrases, strayLoop, property])
  refine ⟨by decide +kernel, hjump, (surroundings_right strayTokens 1 [] _).1 _ _ hjump, hproperty, ?_⟩
  exact ((surroundings_right strayTokens 1 [] above).2.1 _ _ _ hproperty).mp rfl

end Parsed

end KScript

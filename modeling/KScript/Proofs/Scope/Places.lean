import KScript.Proofs.Scope.Legality

/-!
# The places of a program

`Program.At` lists every phrase of a program, that is every expression and every statement, with the
constructs around it.  It is generated from one table, which says of what parts a phrase is made and which
constructs are entered on the way to each of them (`Phrase.below`).

In an accepted program a phrase carries in its resolved form what its place says (`Program.At.settled`):

- the flag of a `.` that reads or writes a property tells whether a class is around it;
- a `this` is bound exactly if a routine with a receiver is around it.
-/

namespace KScript

open Scope

variable {β : Type}

/-! ## Phrases and their parts -/

/-- An expression or a statement. -/
inductive Phrase (β : Type) where
  | expr (e : Expr β)
  | stmt (s : Stmt β)

/-- The expressions of which an expression is made. -/
def Expr.operands : Expr β → List (Expr β)
  | .literal _ => []
  | .array items => items
  | .grouping inner => [inner]
  | .unary _ operand => [operand]
  | .binary left _ right => [left, right]
  | .logical left _ right => [left, right]
  | .conditional condition yes no => [condition, yes, no]
  | .variable _ => []
  | .assign _ value => [value]
  | .step _ _ => []
  | .call callee _ args => callee :: args
  | .get object _ _ => [object]
  | .set object _ value _ => [object, value]
  | .receiver _ => []
  | .inherited _ _ => []

/-- The statements of routines, each with the constructs up to its body. -/
def Routine.phrases (role : Role) (outer : List Construct) (rs : List (Routine (Stmt β))) :
    List (List Construct × Phrase β) :=
  rs.flatMap fun r => r.body.map fun s => (.routine role r.name :: outer, .stmt s)

/-- The phrases of which a statement is made, each with the constructs that are entered on the way to it,
innermost first. -/
def Stmt.phrases : Stmt β → List (List Construct × Phrase β)
  | .expr e => [([], .expr e)]
  | .echo e => [([], .expr e)]
  | .var _ value => value.toList.map fun e => ([], .expr e)
  | .block body => body.map fun s => ([.block], .stmt s)
  | .exit _ code => [([], .expr code)]
  | .branch condition yes no =>
    ([], .expr condition) :: ([], .stmt yes) :: no.toList.map fun s => ([], .stmt s)
  | .loop condition body => [([], .expr condition), ([], .stmt body)]
  | .forLoop start condition after body =>
    start.toList.map (fun s => ([.forLoop], .stmt s.toStmt))
      ++ ([.forLoop], .expr condition) :: ([.forLoop], .stmt body)
      :: after.toList.map fun e => ([.forLoop], .expr e)
  | .step _ _ => []
  | .jump _ _ => []
  | .routine decl => Routine.phrases .subroutine [] [decl]
  | .giveBack _ value => value.toList.map fun e => ([], .expr e)
  | .classDecl _ superclass methods statics getters setters =>
    let inner := [.classDecl superclass.isSome]
    superclass.toList.map (fun ref => ([], .expr (.variable ref)))
      ++ Routine.phrases .method inner methods ++ Routine.phrases .staticMethod inner statics
      ++ Routine.phrases .getter inner getters ++ Routine.phrases .setter inner setters

namespace Phrase

/-- The phrases of which a phrase is made, with the constructs that are entered on the way. -/
def below : Phrase β → List (List Construct × Phrase β)
  | expr e => e.operands.map fun e => ([], .expr e)
  | stmt s => s.phrases

/-- The phrases of which a phrase is made. -/
def parts (p : Phrase β) : List (Phrase β) := p.below.map (·.2)

end Phrase

/-- The phrase stands in the program, inside the constructs, innermost first. -/
inductive Program.At (program : Program β) : List Construct → Phrase β → Prop where
  | top {s : Stmt β} (hs : s ∈ program) : At program [] (.stmt s)
  | part {around entered : List Construct} {p q : Phrase β} (hp : At program around p)
      (hq : (entered, q) ∈ p.below) : At program (entered ++ around) q

/-- Some class is among the constructs. -/
def Construct.inClass (around : List Construct) : Bool := around.any isClass

/-! ## Expressions -/

/-- Every property in the expression has the flag: the expression is well formed, or it is the value of a
compound assignment. -/
def Expr.Formed (inside : Bool) (e : Expr Unit) : Prop :=
  e.WellFormed inside
    ∨ ∃ left op right, e = .binary left op right ∧ left.WellFormed inside ∧ right.WellFormed inside

section

variable {inside : Bool} {c : Context} {e part : Expr Unit}

/-- What holds of a list by its first expression and its rest holds of each expression in it. -/
lemma Expr.of_mem_of_cons (All : List (Expr Unit) → Prop) {P : Expr Unit → Prop}
    (hcons : ∀ first rest, All (first :: rest) → P first ∧ All rest) {es : List (Expr Unit)}
    (h : All es) (he : e ∈ es) : P e := by
  induction es with
  | nil => cases he
  | cons first rest ih =>
      obtain ⟨hfirst, hrest⟩ := hcons first rest h
      rcases List.mem_cons.mp he with rfl | he
      · exact hfirst
      · exact ih hrest he

lemma Expr.wellFormed_of_mem_each {es : List (Expr Unit)} (h : Expr.WellFormedEach inside es)
    (he : e ∈ es) : e.WellFormed inside :=
  of_mem_of_cons (WellFormedEach inside) (fun _ _ h => h) h he

lemma Expr.proper_of_mem_all {es : List (Expr Unit)} (h : Expr.ProperAll es) (he : e ∈ es) :
    e.Proper := of_mem_of_cons ProperAll (fun _ _ h => h) h he

lemma Expr.check_of_mem_all {es : List (Expr Unit)} (h : Expr.checkAll c es = []) (he : e ∈ es) :
    e.check c = [] :=
  of_mem_of_cons (checkAll c · = []) (fun _ _ h => List.append_eq_nil_iff.mp h) h he

lemma Expr.resolveAll_eq_map (c : Context) (es : List (Expr Unit)) :
    Expr.resolveAll c es = es.map (Expr.resolve c) := by
  induction es with
  | nil => rfl
  | cons e rest ih => rw [Expr.resolveAll, ih, List.map_cons]

lemma Expr.operands_resolve (c : Context) (e : Expr Unit) :
    (e.resolve c).operands = e.operands.map (Expr.resolve c) := by
  cases e <;> simp [Expr.resolve, Expr.operands, Expr.resolveAll_eq_map]

lemma Expr.Formed.operand (h : e.Formed inside) (hmem : part ∈ e.operands) :
    part.Formed inside := by
  rcases h with h | ⟨left, op, right, rfl, hleft, hright⟩
  · cases e with
    | array items => exact .inl (wellFormed_of_mem_each h.2 hmem)
    | call callee paren args =>
        rcases List.mem_cons.mp hmem with rfl | hmem
        · exact .inl h.2.1
        · exact .inl (wellFormed_of_mem_each h.2.2 hmem)
    | assign ref value =>
        obtain rfl := List.mem_singleton.mp hmem
        obtain ⟨hfits, hvalue | hvalue⟩ := h
        · exact .inl hvalue
        · cases part with
          | binary left op right => exact .inr ⟨_, _, _, rfl, hvalue.2.1 ▸ hfits, hvalue.2.2⟩
          | _ => exact hvalue.elim
    | grouping inner =>
        obtain rfl := List.mem_singleton.mp hmem
        exact .inl h
    | literal _ | «variable» _ | step _ _ | receiver _ | inherited _ _ => cases hmem
    | _ =>
        simp only [operands, List.mem_cons, List.not_mem_nil, or_false] at hmem
        simp only [WellFormed] at h
        grind [Formed]
  · simp only [operands, List.mem_cons, List.not_mem_nil, or_false] at hmem
    rcases hmem with rfl | rfl
    · exact .inl hleft
    · exact .inl hright

lemma Expr.Proper.operand (h : e.Proper) (hmem : part ∈ e.operands) : part.Proper := by
  cases e with
  | array items => exact proper_of_mem_all h hmem
  | call callee paren args =>
      rcases List.mem_cons.mp hmem with rfl | hmem
      · exact h.1
      · exact proper_of_mem_all h.2 hmem
  | literal _ | «variable» _ | step _ _ | receiver _ | inherited _ _ => cases hmem
  | _ =>
      simp only [operands, List.mem_cons, List.not_mem_nil, or_false] at hmem
      simp only [Proper] at h
      grind

lemma Expr.check_operand (h : e.check c = []) (hmem : part ∈ e.operands) :
    part.check c = [] := by
  cases e with
  | array items => exact check_of_mem_all h hmem
  | call callee paren args =>
      rw [check, List.append_eq_nil_iff] at h
      rcases List.mem_cons.mp hmem with rfl | hmem
      · exact h.1
      · exact check_of_mem_all h.2 hmem
  | literal _ | «variable» _ | step _ _ | receiver _ | inherited _ _ => cases hmem
  | _ =>
      simp only [operands, List.mem_cons, List.not_mem_nil, or_false] at hmem
      simp only [check, List.append_eq_nil_iff] at h
      grind

end

/-! ## Phrases of accepted programs -/

/-- The expression is accepted in a context that fits its place. -/
structure Expr.Stands (c : Context) (around : List Construct) (e : Expr Unit) : Prop where
  within : c.Within around
  proper : e.Proper
  formed : e.Formed (Construct.inClass around)
  check : e.check c = []

/-- The statement is accepted in a context that fits its place. -/
structure Stmt.Stands (c : Context) (around : List Construct) (s : Stmt Unit) : Prop where
  within : c.Within around
  proper : s.Proper
  formed : ∃ context : Parser.Context,
    context.inClass = Construct.inClass around ∧ s.WellFormed context
  check : s.check c = []

/-- The resolved phrase comes from a phrase that was accepted at that place.  An expression may have been
made a statement: the first clause of a `for` loop, or a lone expression that is written out. -/
inductive Phrase.Settled (around : List Construct) : Phrase Depth → Prop where
  | expr {c : Context} {e : Expr Unit} {resolved : Expr Depth} (h : e.Stands c around)
      (hresolve : e.resolve c = resolved) : Settled around (.expr resolved)
  | stmt {c : Context} {s : Stmt Unit} {resolved : Stmt Depth} (h : s.Stands c around)
      (hresolve : s.resolve c = resolved) : Settled around (.stmt resolved)
  | made {e : Expr Depth} {s : Stmt Depth} (h : Settled around (.expr e))
      (hs : s = .expr e ∨ s = .echo e) : Settled around (.stmt s)

namespace Phrase.Settled

variable {around : List Construct} {c : Context}

lemma exprOf {e : Expr Unit} (hc : c.Within around) (hproper : e.Proper)
    (hformed : e.WellFormed (Construct.inClass around)) (hcheck : e.check c = []) :
    Settled around (.expr (e.resolve c)) :=
  .expr ⟨hc, hproper, .inl hformed, hcheck⟩ rfl

/-- The expression of a clause that may be left out. -/
lemma option {value : Option (Expr Unit)} (hc : c.Within around) (hproper : ∀ e ∈ value, e.Proper)
    (hformed : ∀ e ∈ value, e.WellFormed (Construct.inClass around))
    (hcheck : Expr.checkOption c value = []) {e : Expr Depth}
    (he : value.map (Expr.resolve c) = some e) : Settled around (.expr e) := by
  cases value with
  | none => cases he
  | some e' =>
      cases he
      exact exprOf hc (hproper e' rfl) (hformed e' rfl) hcheck

/-- The statements of a list, each in the context that the ones before it left. -/
lemma all {ss : List (Stmt Unit)} {context : Parser.Context} (hc : c.Within around)
    (hproper : Stmt.ProperAll ss) (hformed : Stmt.WellFormedAll context ss)
    (hcontext : context.inClass = Construct.inClass around) (hcheck : Stmt.checkAll c ss = [])
    {s : Stmt Depth} (hs : s ∈ Stmt.resolveAll c ss) : Settled around (.stmt s) := by
  induction ss generalizing c with
  | nil => cases hs
  | cons first rest ih =>
      obtain ⟨hfirst, hrest⟩ := List.append_eq_nil_iff.mp hcheck
      rcases List.mem_cons.mp hs with rfl | hs
      · exact .stmt ⟨hc, hproper.1, ⟨context, hcontext, hformed.1⟩, hfirst⟩ rfl
      · exact ih (hc.after hproper.1) hproper.2 hformed.2 hrest hs

/-- The statements of the routines of a class. -/
lemma routines {role : Role} {kind : Token → BodyKind} {rs : List (Routine (Stmt Unit))}
    {outer entered : List Construct} {context : Parser.Context} {q : Phrase Depth}
    (hc : ∀ name params, (∀ p ∈ params, Token.Declarable p) →
      (c.inRoutine (kind name) params).Within (.routine role name :: (outer ++ around)))
    (hproper : Stmt.ProperRoutines rs) (hformed : Stmt.WellFormedRoutines context rs)
    (hcontext : context.inClass = Construct.inClass (outer ++ around))
    (hcheck : Stmt.checkRoutines c kind rs = [])
    (hq : (entered, q) ∈ Routine.phrases role outer (Stmt.resolveRoutines c kind rs)) :
    Settled (entered ++ around) q := by
  induction rs with
  | nil => cases hq
  | cons r rest ih =>
      obtain ⟨name, params, body⟩ := r
      obtain ⟨hparams, hbody, hrest⟩ := hproper
      simp only [Stmt.checkRoutines, List.append_eq_nil_iff] at hcheck
      rw [Stmt.resolveRoutines, Routine.phrases, List.flatMap_cons] at hq
      rcases List.mem_append.mp hq with hq | hq
      · obtain ⟨s, hs, heq⟩ := List.mem_map.mp hq
        obtain ⟨rfl, rfl⟩ := Prod.mk.inj heq
        exact all (hc name params hparams) hbody hformed.1 hcontext hcheck.1.2 hs
      · exact ih hrest hformed.2 hcheck.2 hq

end Phrase.Settled

/-- The phrases of which an accepted statement is made. -/
lemma Stmt.Stands.phrases {c : Context} {around entered : List Construct} {s : Stmt Unit}
    {q : Phrase Depth} (h : s.Stands c around) (hq : (entered, q) ∈ (s.resolve c).phrases) :
    q.Settled (entered ++ around) := by
  obtain ⟨hc, hproper, ⟨context, hcontext, hformed⟩, hcheck⟩ := h
  cases s with
  | expr e =>
      obtain ⟨rfl, rfl⟩ := Prod.mk.inj (List.mem_singleton.mp hq)
      exact .exprOf hc hproper (hcontext ▸ hformed.2) hcheck
  | echo e => exact hformed.elim
  | var name value =>
      obtain ⟨e, he, heq⟩ := List.mem_map.mp hq
      obtain ⟨rfl, rfl⟩ := Prod.mk.inj heq
      rw [Stmt.check, Context.checkVar, List.append_eq_nil_iff] at hcheck
      exact .option (hc.declare hproper.1) hproper.2 (hcontext ▸ hformed.2) hcheck.2
        (Option.mem_toList.mp he)
  | block body =>
      obtain ⟨s, hs, heq⟩ := List.mem_map.mp hq
      obtain ⟨rfl, rfl⟩ := Prod.mk.inj heq
      exact .all hc.block hproper hformed hcontext hcheck hs
  | exit keyword code =>
      obtain ⟨rfl, rfl⟩ := Prod.mk.inj (List.mem_singleton.mp hq)
      exact .exprOf hc hproper (hcontext ▸ hformed.2) hcheck
  | branch condition yes no =>
      obtain ⟨hcondition, hyes, hno⟩ := hproper
      obtain ⟨-, hfcondition, hfyes, hfno⟩ := hformed
      simp only [Stmt.check, List.append_eq_nil_iff] at hcheck
      rcases List.mem_cons.mp hq with heq | hq
      · obtain ⟨rfl, rfl⟩ := Prod.mk.inj heq
        exact .exprOf hc hcondition (hcontext ▸ hfcondition) hcheck.1.1
      rcases List.mem_cons.mp hq with heq | hq
      · obtain ⟨rfl, rfl⟩ := Prod.mk.inj heq
        exact .stmt ⟨hc, hyes, ⟨context, hcontext, hfyes⟩, hcheck.1.2⟩ rfl
      · obtain ⟨s, hs, heq⟩ := List.mem_map.mp hq
        obtain ⟨rfl, rfl⟩ := Prod.mk.inj heq
        cases no with
        | none => cases hs
        | some no =>
            obtain rfl := List.mem_singleton.mp hs
            exact .stmt ⟨hc, hno, ⟨context, hcontext, hfno⟩, hcheck.2⟩ rfl
  | loop condition body =>
      obtain ⟨-, hfcondition, hfbody⟩ := hformed
      rw [Stmt.check, List.append_eq_nil_iff] at hcheck
      rcases List.mem_cons.mp hq with heq | hq
      · obtain ⟨rfl, rfl⟩ := Prod.mk.inj heq
        exact .exprOf hc hproper.1 (hcontext ▸ hfcondition) hcheck.1
      · obtain ⟨rfl, rfl⟩ := Prod.mk.inj (List.mem_singleton.mp hq)
        exact .stmt ⟨hc, hproper.2, ⟨{ context with inLoop := true }, hcontext, hfbody⟩, hcheck.2⟩ rfl
  | forLoop start condition after body =>
      obtain ⟨hstart, hcondition, hafter, hbody⟩ := hproper
      obtain ⟨hfits, hfstart, hfcondition, hfafter, hfbody⟩ := hformed
      simp only [Stmt.check, List.append_eq_nil_iff] at hcheck
      obtain ⟨⟨⟨hchstart, hchcondition⟩, hchafter⟩, hchbody⟩ := hcheck
      have hinner := hc.forLoop.afterStart hstart
      rcases List.mem_append.mp hq with hq | hq
      · obtain ⟨first, hfirst, heq⟩ := List.mem_map.mp hq
        obtain ⟨rfl, rfl⟩ := Prod.mk.inj heq
        rcases start with _ | ⟨name, value⟩ | e
        · cases hfirst
        · obtain rfl := List.mem_singleton.mp hfirst
          exact .stmt (s := .var name value)
            ⟨hc.forLoop, hstart, ⟨context, hcontext, hfits.1, hfstart⟩, hchstart⟩ rfl
        · obtain rfl := List.mem_singleton.mp hfirst
          exact .made (.exprOf hc.forLoop hstart (hcontext ▸ hfstart) hchstart) (.inl rfl)
      rcases List.mem_cons.mp hq with heq | hq
      · obtain ⟨rfl, rfl⟩ := Prod.mk.inj heq
        exact .exprOf hinner hcondition (hcontext ▸ hfcondition) hchcondition
      rcases List.mem_cons.mp hq with heq | hq
      · obtain ⟨rfl, rfl⟩ := Prod.mk.inj heq
        exact .stmt ⟨hinner, hbody, ⟨{ context with inLoop := true }, hcontext, hfbody⟩, hchbody⟩ rfl
      · obtain ⟨e, he, heq⟩ := List.mem_map.mp hq
        obtain ⟨rfl, rfl⟩ := Prod.mk.inj heq
        exact .option hinner hafter (hcontext ▸ hfafter) hchafter (Option.mem_toList.mp he)
  | step direction ref => cases hq
  | jump jump keyword => cases hq
  | routine decl =>
      obtain ⟨name, params, body⟩ := decl
      obtain ⟨hname, hparams, hbody⟩ := hproper
      simp only [Stmt.check, List.append_eq_nil_iff] at hcheck
      simp only [Stmt.resolve, Stmt.phrases, Routine.phrases, List.flatMap_singleton] at hq
      obtain ⟨s, hs, heq⟩ := List.mem_map.mp hq
      obtain ⟨rfl, rfl⟩ := Prod.mk.inj heq
      exact .all ((hc.bind hname).subroutine name hparams) hbody hformed.2 hcontext hcheck.2 hs
  | giveBack keyword value =>
      obtain ⟨e, he, heq⟩ := List.mem_map.mp hq
      obtain ⟨rfl, rfl⟩ := Prod.mk.inj heq
      rw [Stmt.check, List.append_eq_nil_iff] at hcheck
      exact .option hc hproper (hcontext ▸ hformed.2) hcheck.2 (Option.mem_toList.mp he)
  | classDecl name superclass methods statics getters setters =>
      obtain ⟨hname, hsuper, hms, hss, hgs, hts, -, -⟩ := hproper
      obtain ⟨hfits, hfms, hfss, hfgs, hfts⟩ := hformed
      simp only [Stmt.check, List.append_eq_nil_iff] at hcheck
      obtain ⟨⟨⟨⟨⟨-, hchsuper⟩, hchms⟩, hchgs⟩, hchts⟩, hchss⟩ := hcheck
      simp only [Stmt.resolve, Stmt.phrases, Option.isSome_map, List.mem_append] at hq
      have hmember (role : Role) (hrole : role ≠ .subroutine) (member : Token)
          (params : List Token) (h : ∀ p ∈ params, Token.Declarable p) :=
        (hc.bind hname).member superclass role hrole member h rfl
      rcases hq with (((hq | hq) | hq) | hq) | hq
      · obtain ⟨ref, href, heq⟩ := List.mem_map.mp hq
        obtain ⟨rfl, rfl⟩ := Prod.mk.inj heq
        cases superclass with
        | none => cases href
        | some ref =>
            obtain rfl := List.mem_singleton.mp href
            rw [Context.checkSuperclass, List.append_eq_nil_iff] at hchsuper
            exact .exprOf (e := .variable ref) (hc.bind hname) (hsuper ref rfl)
              (hfits.2.1 ref rfl) hchsuper.2
      · exact .routines (hmember .method (by decide)) hms hfms rfl hchms hq
      · exact .routines (hmember .staticMethod (by decide)) hss hfss rfl hchss hq
      · exact .routines (hmember .getter (by decide)) hgs hfgs rfl hchgs hq
      · exact .routines (hmember .setter (by decide)) hts hfts rfl hchts hq

namespace Phrase.Settled

variable {around : List Construct}

/-- **The parts of a settled phrase are settled where they stand.** -/
theorem part {p q : Phrase Depth} {entered : List Construct} (h : Settled around p)
    (hq : (entered, q) ∈ p.below) : Settled (entered ++ around) q := by
  cases h with
  | @expr c e _ h hresolve =>
      subst hresolve
      rw [Phrase.below, Expr.operands_resolve, List.map_map] at hq
      obtain ⟨operand, hmem, heq⟩ := List.mem_map.mp hq
      obtain ⟨rfl, rfl⟩ := Prod.mk.inj heq
      exact .expr ⟨h.within, h.proper.operand hmem, h.formed.operand hmem,
        Expr.check_operand h.check hmem⟩ rfl
  | made h hs =>
      rcases hs with rfl | rfl <;>
      · obtain ⟨rfl, rfl⟩ := Prod.mk.inj (List.mem_singleton.mp hq)
        exact h
  | @stmt c s _ h hresolve =>
      subst hresolve
      exact h.phrases hq

/-! ## What a place says -/

/-- The flag of a property that is read tells whether a class is around. -/
lemma get_inside {object : Expr Depth} {name : Token} {inside : Bool}
    (h : Settled around (.expr (.get object name inside))) : inside = Construct.inClass around := by
  cases h with
  | @expr c e _ h hresolve =>
      cases e with
      | get object name inside =>
          cases hresolve
          rcases h.formed with hformed | ⟨_, _, _, hbinary, -⟩
          · exact hformed.1.2.2
          · cases hbinary
      | _ => cases hresolve

/-- The flag of a property that is written tells whether a class is around. -/
lemma set_inside {object value : Expr Depth} {name : Token} {inside : Bool}
    (h : Settled around (.expr (.set object name value inside))) :
    inside = Construct.inClass around := by
  cases h with
  | @expr c e _ h hresolve =>
      cases e with
      | set object name value inside =>
          cases hresolve
          rcases h.formed with hformed | ⟨_, _, _, hbinary, -⟩
          · exact hformed.1.2.2
          · cases hbinary
      | _ => cases hresolve

/-- A `this` is bound exactly if a routine with a receiver is around. -/
lemma receiver {ref : Reference Depth} (h : Settled around (.expr (.receiver ref))) :
    (ref.bound = none ↔ ∀ k ∈ around, k.hasReceiver = false)
      ∧ Occurrence.Legal ⟨around, .receiver⟩ := by
  cases h with
  | @expr c e _ h hresolve =>
      cases e with
      | receiver ref =>
          cases hresolve
          have hname : ref.name.lexeme = thisName := h.proper
          have hbound : (ref.resolveReceiver c).bound = c.scopes.depth thisName := by
            have hcheck : c.checkReceiver ref.name = [] := h.check
            unfold Context.checkReceiver at hcheck
            split at hcheck
            · cases hcheck
            · next hclass =>
                rw [complainWhen_eq_nil, decide_eq_false_iff_not] at hcheck
                rw [Reference.resolveReceiver, if_neg (not_or.mpr ⟨hclass, hcheck⟩), ← hname]
                rfl
          have hnone : c.scopes.depth thisName = none ↔ c.hasReceiver = false := by
            simp [Scopes.depth, Context.hasReceiver]
          refine ⟨?_, (h.within.checkReceiver_eq_nil ref.name).mp h.check⟩
          rw [hbound, hnone, h.within.receiver, List.any_eq_false]
          simp
      | _ => cases hresolve

end Phrase.Settled

namespace Program.At

variable {around : List Construct}

/-- What stands in a program whose statements are settled is settled. -/
lemma settled {program : Program Depth} {p : Phrase Depth} (h : program.At around p)
    (hprogram : ∀ s ∈ program, Phrase.Settled [] (.stmt s)) : p.Settled around := by
  induction h with
  | top hs => exact hprogram _ hs
  | part _ hq ih => exact ih.part hq

/-- To enter a class is to enter one of its routines. -/
lemma exists_member_of_below {entered : List Construct} {p q : Phrase β}
    (hq : (entered, q) ∈ p.below) (hclass : Construct.inClass entered = true) :
    ∃ k ∈ entered, k.hasReceiver = true ∨ k.isStatic = true := by
  rcases p with e | s
  · obtain ⟨_, _, heq⟩ := List.mem_map.mp hq
    obtain ⟨rfl, -⟩ := Prod.mk.inj heq
    cases hclass
  have hroutines {role : Role} {outer : List Construct} {rs : List (Routine (Stmt β))}
      (hmem : (entered, q) ∈ Routine.phrases role outer rs) :
      ∃ name, entered = .routine role name :: outer := by
    obtain ⟨r, _, hmem⟩ := List.mem_flatMap.mp hmem
    obtain ⟨_, _, heq⟩ := List.mem_map.mp hmem
    exact ⟨r.name, (Prod.mk.inj heq).1.symm⟩
  cases s with
  | routine decl =>
      obtain ⟨name, rfl⟩ := hroutines hq
      cases hclass
  | classDecl name superclass methods statics getters setters =>
      simp only [Phrase.below, Stmt.phrases, List.mem_append] at hq
      rcases hq with (((hq | hq) | hq) | hq) | hq
      · obtain ⟨_, _, heq⟩ := List.mem_map.mp hq
        obtain ⟨rfl, -⟩ := Prod.mk.inj heq
        cases hclass
      all_goals
        obtain ⟨name, rfl⟩ := hroutines hq
        exact ⟨_, List.mem_cons_self, by simp [Construct.hasReceiver, Construct.isStatic]⟩
  | step _ _ | jump _ _ => cases hq
  | _ =>
      have hnot : Construct.inClass entered = false := by
        simp only [Phrase.below, Stmt.phrases, List.mem_cons, List.mem_append, List.mem_map,
          List.not_mem_nil, Prod.mk.injEq] at hq
        grind [Construct.inClass, Construct.isClass]
      rw [hnot] at hclass
      cases hclass

/-- Where a class is around, one of its routines is. -/
lemma exists_member {program : Program β} {p : Phrase β} (h : program.At around p)
    (hclass : Construct.inClass around = true) :
    ∃ k ∈ around, k.hasReceiver = true ∨ k.isStatic = true := by
  induction h with
  | top _ => cases hclass
  | @part around entered p q _ hq ih =>
      rw [Construct.inClass, List.any_append, Bool.or_eq_true] at hclass
      rcases hclass with hclass | hclass
      · obtain ⟨k, hk, hmember⟩ := exists_member_of_below hq hclass
        exact ⟨k, List.mem_append_left _ hk, hmember⟩
      · obtain ⟨k, hk, hmember⟩ := ih hclass
        exact ⟨k, List.mem_append_right _ hk, hmember⟩

end Program.At

namespace Session

/-- The phrase stands in an accepted script, whether or not its lone expression is written out. -/
def Stands (sources : List String) (around : List Construct) (p : Phrase Depth) : Prop :=
  ∃ source ∈ sources, (prepare source).1 = []
    ∧ ∃ echo, (echoed echo (prepare source).2).At around p

namespace Stands

variable {sources : List String} {around : List Construct} {p : Phrase Depth}

lemma top {source : String} {program : Program Depth} (hsource : source ∈ sources)
    (h : prepare source = ([], program)) {s : Stmt Depth} (hs : s ∈ program) :
    Stands sources [] (.stmt s) := by
  have hsame : echoed false program = program := by
    unfold echoed
    split <;> rfl
  refine ⟨source, hsource, by rw [h], false, .top ?_⟩
  rwa [h, hsame]

lemma part {entered : List Construct} {q : Phrase Depth} (h : Stands sources around p)
    (hq : (entered, q) ∈ p.below) : Stands sources (entered ++ around) q := by
  obtain ⟨source, hsource, haccepted, echo, hat⟩ := h
  exact ⟨source, hsource, haccepted, echo, hat.part hq⟩

/-- **What stands in an accepted script is settled.** -/
theorem settled (h : Stands sources around p) : p.Settled around := by
  obtain ⟨source, -, haccepted, echo, hat⟩ := h
  obtain ⟨hreports, hcheck, hprogram⟩ := prepare_accepted haccepted
  have hwell : Stmt.WellFormedAll Parser.topLevel (Parsed.ofSource source).program :=
    Stmt.wellFormedAll_of_spells (Parsed.spells_of_reports_eq_nil hreports)
  have hall (s : Stmt Depth) (hs : s ∈ (prepare source).2) : Phrase.Settled [] (.stmt s) := by
    rw [hprogram] at hs
    exact .all Context.within_topLevel (Parsed.proper_ofSource hreports) hwell rfl hcheck hs
  refine hat.settled fun s hs => ?_
  unfold echoed at hs
  split at hs
  · next e heq =>
      have hpart : ([], .expr e) ∈ (Phrase.stmt (.expr e)).below := List.mem_cons_self
      have he : Phrase.Settled [] (.expr e) :=
        (hall (.expr e) (heq ▸ List.mem_cons_self)).part hpart
      cases echo with
      | false => exact .made he (.inl (List.mem_singleton.mp hs))
      | true => exact .made he (.inr (List.mem_singleton.mp hs))
  · exact hall s hs

end Stands

end Session

end KScript

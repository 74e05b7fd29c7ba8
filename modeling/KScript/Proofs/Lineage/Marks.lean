import KScript.Proofs.Scope.Places

/-!
# Where the reserved names are bound

Which scopes around a place bind `super` and `this` can be read off the constructs around it
(`Construct.marks`), since programs never declare these names.  So can the depths of `super` and `this`
there (`Phrase.Marked.inherited_bound`, `Phrase.Marked.receiver_bound`).
-/

namespace KScript

open Scope

/-- For each scope that a construct opens, innermost first, whether the superclass and whether the receiver
is bound in it. -/
def Construct.marks : Construct → List (Bool × Bool)
  | .classDecl extended => if extended then [(true, false)] else []
  | k => (false, false) :: if k.hasReceiver then [(false, true)] else []

/-! ## Contexts -/

namespace Scope.Context

variable {c : Context}

lemma marks_bind {name : Token} (h : name.Declarable) : (c.bind name).scopes.marks = c.scopes.marks :=
  (Scopes.marks_define h).trans (Scopes.marks_declare h)

lemma marks_after {s : Stmt Unit} (h : s.Proper) : (c.after s).scopes.marks = c.scopes.marks := by
  cases s with
  | var name value => exact marks_bind h.1
  | routine decl =>
      obtain ⟨name, params, body⟩ := decl
      exact marks_bind h.1
  | classDecl name superclass methods statics getters setters => exact marks_bind h.1
  | _ => rfl

lemma marks_afterStart {start : Option (ForStart Unit)} (h : ForStart.Proper start) :
    (c.afterStart start).scopes.marks = c.scopes.marks := by
  rcases start with _ | ⟨name, value⟩ | e
  · rfl
  · exact marks_bind h.1
  · rfl

lemma marks_inRoutine (kind : BodyKind) {params : List Token} (h : ∀ p ∈ params, p.Declarable) :
    (c.inRoutine kind params).scopes.marks = (false, false) :: c.scopes.marks :=
  Scopes.marks_defineAll h

lemma marks_inClass (superclass : Option (Reference Unit)) :
    (c.inClass superclass).scopes.marks = (Construct.classDecl superclass.isSome).marks ++ c.scopes.marks := by
  cases superclass <;> rfl

lemma marks_withReceiver : c.withReceiver.scopes.marks = (false, true) :: c.scopes.marks := rfl

end Scope.Context

lemma Scopes.depth_superName (scopes : Scopes) :
    scopes.depth superName = scopes.marks.findIdx? (·.1) := by
  simp [Scopes.depth, Scopes.marks, List.findIdx?_map, Function.comp_def]

lemma Scopes.depth_thisName (scopes : Scopes) :
    scopes.depth thisName = scopes.marks.findIdx? (·.2) := by
  simp [Scopes.depth, Scopes.marks, List.findIdx?_map, Function.comp_def]

/-! ## Phrases -/

/-- The phrase is proper, and was resolved in scopes that bind the reserved names as the constructs around
it say. -/
inductive Phrase.Marked (around : List Construct) : Phrase Depth → Prop where
  | expr {c : Context} {e : Expr Unit} {resolved : Expr Depth}
      (hc : c.scopes.marks = around.flatMap Construct.marks) (he : e.Proper)
      (hresolve : e.resolve c = resolved) : Marked around (.expr resolved)
  | stmt {c : Context} {s : Stmt Unit} {resolved : Stmt Depth}
      (hc : c.scopes.marks = around.flatMap Construct.marks) (hs : s.Proper)
      (hresolve : s.resolve c = resolved) : Marked around (.stmt resolved)

namespace Phrase.Marked

variable {around entered : List Construct} {c : Context} {q : Phrase Depth}

/-- The expression of a clause that may be left out. -/
lemma option {value : Option (Expr Unit)} (hc : c.scopes.marks = around.flatMap Construct.marks)
    (hvalue : ∀ e ∈ value, e.Proper)
    (hq : (entered, q) ∈ ((value.map (Expr.resolve c)).toList.map fun e => ([], Phrase.expr e))) :
    Marked (entered ++ around) q := by
  cases value with
  | none => cases hq
  | some e =>
      obtain ⟨rfl, rfl⟩ := Prod.mk.inj (List.mem_singleton.mp hq)
      exact .expr hc (hvalue e rfl) rfl

lemma all {ss : List (Stmt Unit)} (hc : c.scopes.marks = around.flatMap Construct.marks)
    (hss : Stmt.ProperAll ss) {s : Stmt Depth} (hs : s ∈ Stmt.resolveAll c ss) :
    Marked around (.stmt s) := by
  induction ss generalizing c with
  | nil => cases hs
  | cons first rest ih =>
      rcases List.mem_cons.mp hs with rfl | hs
      · exact .stmt hc hss.1 rfl
      · exact ih ((Context.marks_after hss.1).trans hc) hss.2 hs

/-- The statements of routines whose bodies stand in scopes with those marks. -/
lemma routines {role : Role} {kind : Token → BodyKind} {rs : List (Routine (Stmt Unit))}
    {outer : List Construct}
    (hc : ∀ name, (false, false) :: c.scopes.marks
      = (Construct.routine role name :: (outer ++ around)).flatMap Construct.marks)
    (hrs : Stmt.ProperRoutines rs)
    (hq : (entered, q) ∈ Routine.phrases role outer (Stmt.resolveRoutines c kind rs)) :
    Marked (entered ++ around) q := by
  induction rs with
  | nil => cases hq
  | cons r rest ih =>
      obtain ⟨name, params, body⟩ := r
      obtain ⟨hparams, hbody, hrest⟩ := hrs
      rw [Stmt.resolveRoutines, Routine.phrases, List.flatMap_cons] at hq
      rcases List.mem_append.mp hq with hq | hq
      · obtain ⟨s, hs, heq⟩ := List.mem_map.mp hq
        obtain ⟨rfl, rfl⟩ := Prod.mk.inj heq
        exact all ((Context.marks_inRoutine _ hparams).trans (hc name)) hbody hs
      · exact ih hrest hq

/-- The parts of a statement are marked where they stand. -/
lemma phrases {s : Stmt Unit} (hc : c.scopes.marks = around.flatMap Construct.marks) (hs : s.Proper)
    (hq : (entered, q) ∈ (s.resolve c).phrases) : Marked (entered ++ around) q := by
  -- a block and a `for` loop open one scope without reserved names
  have henter : c.enter.scopes.marks = (Construct.block :: around).flatMap Construct.marks := by
    rw [List.flatMap_cons, ← hc]
    rfl
  cases s with
  | expr e | echo e =>
      obtain ⟨rfl, rfl⟩ := Prod.mk.inj (List.mem_singleton.mp hq)
      exact .expr hc hs rfl
  | var name value => exact option ((Scopes.marks_declare hs.1).trans hc) hs.2 hq
  | block body =>
      obtain ⟨s, hmem, heq⟩ := List.mem_map.mp hq
      obtain ⟨rfl, rfl⟩ := Prod.mk.inj heq
      exact all henter hs hmem
  | exit keyword code =>
      obtain ⟨rfl, rfl⟩ := Prod.mk.inj (List.mem_singleton.mp hq)
      exact .expr hc hs rfl
  | branch condition yes no =>
      rcases List.mem_cons.mp hq with heq | hq
      · obtain ⟨rfl, rfl⟩ := Prod.mk.inj heq
        exact .expr hc hs.1 rfl
      rcases List.mem_cons.mp hq with heq | hq
      · obtain ⟨rfl, rfl⟩ := Prod.mk.inj heq
        exact .stmt hc hs.2.1 rfl
      · cases no with
        | none => cases hq
        | some no =>
            obtain ⟨rfl, rfl⟩ := Prod.mk.inj (List.mem_singleton.mp hq)
            exact .stmt hc hs.2.2 rfl
  | loop condition body =>
      rcases List.mem_cons.mp hq with heq | hq
      · obtain ⟨rfl, rfl⟩ := Prod.mk.inj heq
        exact .expr hc hs.1 rfl
      · obtain ⟨rfl, rfl⟩ := Prod.mk.inj (List.mem_singleton.mp hq)
        exact .stmt hc hs.2 rfl
  | forLoop start condition after body =>
      obtain ⟨hstart, hcondition, hafter, hbody⟩ := hs
      have hfor : c.enter.scopes.marks = (Construct.forLoop :: around).flatMap Construct.marks := henter
      have hinner := (Context.marks_afterStart hstart).trans hfor
      rcases List.mem_append.mp hq with hq | hq
      · rcases start with _ | ⟨name, value⟩ | e
        · cases hq
        · obtain ⟨rfl, rfl⟩ := Prod.mk.inj (List.mem_singleton.mp hq)
          exact .stmt (s := .var name value) hfor hstart rfl
        · obtain ⟨rfl, rfl⟩ := Prod.mk.inj (List.mem_singleton.mp hq)
          exact .stmt (s := .expr e) hfor hstart rfl
      rcases List.mem_cons.mp hq with heq | hq
      · obtain ⟨rfl, rfl⟩ := Prod.mk.inj heq
        exact .expr hinner hcondition rfl
      rcases List.mem_cons.mp hq with heq | hq
      · obtain ⟨rfl, rfl⟩ := Prod.mk.inj heq
        exact .stmt hinner hbody rfl
      · cases after with
        | none => cases hq
        | some e =>
            obtain ⟨rfl, rfl⟩ := Prod.mk.inj (List.mem_singleton.mp hq)
            exact .expr hinner (hafter e rfl) rfl
  | step direction ref => cases hq
  | jump jump keyword => cases hq
  | routine decl =>
      obtain ⟨name, params, body⟩ := decl
      obtain ⟨hname, hparams, hbody⟩ := hs
      simp only [Stmt.resolve, Stmt.phrases, Routine.phrases, List.flatMap_singleton] at hq
      obtain ⟨s, hmem, heq⟩ := List.mem_map.mp hq
      obtain ⟨rfl, rfl⟩ := Prod.mk.inj heq
      refine all ?_ hbody hmem
      rw [Context.marks_inRoutine _ hparams, Context.marks_bind hname, hc]
      rfl
  | giveBack keyword value => exact option hc hs hq
  | classDecl name superclass methods statics getters setters =>
      obtain ⟨hname, hsuper, hms, hss, hgs, hts, -, -⟩ := hs
      have hbind := (Context.marks_bind hname).trans hc
      have hclass := Context.marks_inClass (c := c.bind name) superclass
      simp only [Stmt.resolve, Stmt.phrases, Option.isSome_map, List.mem_append] at hq
      rcases hq with (((hq | hq) | hq) | hq) | hq
      · cases superclass with
        | none => cases hq
        | some ref =>
            obtain ⟨rfl, rfl⟩ := Prod.mk.inj (List.mem_singleton.mp hq)
            exact .expr (e := .variable ref) hbind (hsuper ref rfl) rfl
      · refine routines (fun _ => ?_) hms hq
        rw [Context.marks_withReceiver, hclass, hbind]
        rfl
      · refine routines (fun _ => ?_) hss hq
        rw [hclass, hbind]
        rfl
      · refine routines (fun _ => ?_) hgs hq
        rw [Context.marks_withReceiver, hclass, hbind]
        rfl
      · refine routines (fun _ => ?_) hts hq
        rw [Context.marks_withReceiver, hclass, hbind]
        rfl

/-- **The parts of a marked phrase are marked where they stand.** -/
theorem part {p : Phrase Depth} (h : Marked around p) (hq : (entered, q) ∈ p.below) :
    Marked (entered ++ around) q := by
  cases h with
  | @expr c e _ hc he hresolve =>
      subst hresolve
      rw [Phrase.below, Expr.operands_resolve, List.map_map] at hq
      obtain ⟨operand, hmem, heq⟩ := List.mem_map.mp hq
      obtain ⟨rfl, rfl⟩ := Prod.mk.inj heq
      exact .expr hc (he.operand hmem) rfl
  | stmt hc hs hresolve =>
      subst hresolve
      exact phrases hc hs hq

/-- The depth of a `super` is that of the nearest class with a superclass. -/
lemma inherited_bound {ref : Reference Depth} {method : Token}
    (h : Marked around (.expr (.inherited ref method))) :
    ref.bound = (around.flatMap Construct.marks).findIdx? (·.1) := by
  cases h with
  | @expr c e _ hc he hresolve =>
      cases e with
      | inherited ref method =>
          cases hresolve
          have hname : ref.name.lexeme = superName := he
          rw [← hc, ← Scopes.depth_superName, ← hname]
          rfl
      | _ => cases hresolve

/-- The depth of a `this` that is bound is that of the nearest routine with a receiver. -/
lemma receiver_bound {ref : Reference Depth} (h : Marked around (.expr (.receiver ref)))
    (hbound : ref.bound ≠ none) :
    ref.bound = (around.flatMap Construct.marks).findIdx? (·.2) := by
  cases h with
  | @expr c e _ hc he hresolve =>
      cases e with
      | receiver ref =>
          cases hresolve
          have hname : ref.name.lexeme = thisName := he
          rw [← hc, ← Scopes.depth_thisName, ← hname]
          unfold Reference.resolveReceiver at hbound ⊢
          split at hbound
          · exact absurd rfl hbound
          · next hclass =>
              rw [if_neg hclass]
              rfl
      | _ => cases hresolve

end Phrase.Marked

/-! ## The names that a phrase binds -/

/-- The names that a phrase gives a value by itself, with the parameters of the routines that it declares. -/
def Phrase.binds {β : Type} : Phrase β → List Token
  | .expr (.assign ref _) => [ref.name]
  | .expr (.step _ ref) => [ref.name]
  | .stmt (.step _ ref) => [ref.name]
  | .stmt (.var name _) => [name]
  | .stmt (.routine decl) => decl.name :: decl.params
  | .stmt (.classDecl name _ methods statics getters setters) =>
    name :: (methods ++ statics ++ getters ++ setters).flatMap (·.params)
  | _ => []

lemma Stmt.ProperRoutines.params {c : Context} {kind : Token → BodyKind} {rs : List (Routine (Stmt Unit))}
    (h : Stmt.ProperRoutines rs) {r : Routine (Stmt Depth)} (hr : r ∈ Stmt.resolveRoutines c kind rs) :
    ∀ p ∈ r.params, p.Declarable := by
  induction rs with
  | nil => cases hr
  | cons first rest ih =>
      obtain ⟨name, params, body⟩ := first
      obtain ⟨hparams, -, hrest⟩ := h
      rcases List.mem_cons.mp hr with rfl | hr
      · exact hparams
      · exact ih hrest hr

/-- Neither `super` nor `this` is among the names that a phrase binds. -/
theorem Phrase.Marked.declarable {around : List Construct} {p : Phrase Depth} (h : p.Marked around) :
    ∀ name ∈ p.binds, name.Declarable := by
  cases h with
  | @expr c e _ hc he hresolve =>
      subst hresolve
      cases e with
      | assign ref value => exact List.forall_mem_singleton.mpr he.1
      | step direction ref => exact List.forall_mem_singleton.mpr he
      | _ => exact fun _ hname => absurd hname List.not_mem_nil
  | @stmt c s _ hc hs hresolve =>
      subst hresolve
      cases s with
      | step direction ref => exact List.forall_mem_singleton.mpr hs
      | var name value => exact List.forall_mem_singleton.mpr hs.1
      | routine decl =>
          obtain ⟨name, params, body⟩ := decl
          exact List.forall_mem_cons.mpr ⟨hs.1, hs.2.1⟩
      | classDecl name superclass methods statics getters setters =>
          obtain ⟨hname, -, hms, hss, hgs, hts, -, -⟩ := hs
          refine List.forall_mem_cons.mpr ⟨hname, fun p hp => ?_⟩
          obtain ⟨r, hr, hp⟩ := List.mem_flatMap.mp hp
          simp only [List.mem_append] at hr
          rcases hr with ((hr | hr) | hr) | hr
          · exact hms.params hr p hp
          · exact hss.params hr p hp
          · exact hgs.params hr p hp
          · exact hts.params hr p hp
      | _ => exact fun _ hname => absurd hname List.not_mem_nil

/-! ## Accepted scripts -/

/-- **What stands in an accepted script is marked.** -/
theorem Session.Stands.marked {sources : List String} {around : List Construct} {p : Phrase Depth}
    (h : Session.Stands sources around p) : p.Marked around := by
  obtain ⟨source, -, haccepted, echo, hat⟩ := h
  obtain ⟨hreports, -, hprogram⟩ := prepare_accepted haccepted
  have hall (s : Stmt Depth) (hs : s ∈ (prepare source).2) : Phrase.Marked [] (.stmt s) := by
    rw [hprogram] at hs
    exact .all rfl (Parsed.proper_ofSource hreports) hs
  have htop : ∀ s ∈ echoed echo (prepare source).2, Phrase.Marked [] (.stmt s) := by
    intro s hs
    unfold echoed at hs
    split at hs
    · next e heq =>
        have hmarked := hall (.expr e) (heq ▸ List.mem_cons_self)
        cases echo with
        | false =>
            obtain rfl := List.mem_singleton.mp hs
            exact hmarked
        | true =>
            obtain rfl := List.mem_singleton.mp hs
            have hpart : Phrase.Marked [] (.expr e) := hmarked.part List.mem_cons_self
            cases hpart with
            | @expr c e _ hc he hresolve =>
                subst hresolve
                exact .stmt (s := .echo e) hc he rfl
    · exact hall s hs
  induction hat with
  | top hs => exact htop _ hs
  | part _ hq ih => exact ih.part hq

end KScript

import KScript.Proofs.Eval.Watch
import KScript.Proofs.Lineage.Records

/-!
# Looking up what is inherited

At a moment at which `super` is evaluated in a routine of a class, the environment leads to the frame that
the execution of the declaration of that class made for its superclass; in a routine with a receiver the
frame right inside of it binds the receiver (`Machine.Knows.inherits`).  What is found in a class was
declared by one of the classes of its lineage, whose own lineage is the rest from there on
(`ClassValue.Known.find`).
-/

namespace KScript

open Scope

/-! ## Looking up in a class -/

namespace ClassValue

/-- The nearest routine of that name and role. -/
def search (cls : ClassValue) (role : Role) (name : String) : Option Closure :=
  cls.lineage.findSome? fun l => (l.group role).find? name

/-- The methods of that name in the lineage of a class, from the bottom up. -/
def line (cls : ClassValue) (name : String) : List Closure :=
  cls.lineage.filterMap (·.methods.find? name)

/-- The method of that name that the class has or inherits, with the object as its receiver. -/
def inherit (cls : ClassValue) (object : Object) (method : Token) : Run Value :=
  (cls.method? method.lexeme).elim (Run.fail method.line (.undefinedProperty method.lexeme))
    fun c => return .routine (← c.bind object)

lemma method?_eq_head? (cls : ClassValue) (name : String) : cls.method? name = (cls.line name).head? := by
  rw [method?, line, List.head?_filterMap]

/-- What a class finds in a group of routines was declared for a class whose lineage ends its own. -/
lemma Known.find {known : List Declared} {frames : Frames Value} {cls : ClassValue} {name : String}
    {c : Closure} (role : Role) (hknown : Declared.Orderly known) (h : cls.Known ⟨known, frames⟩)
    (hfind : cls.search role name = some c) :
    ∃ made ∈ known, (made.cls.own.group role).find? c.decl.name.lexeme = some c
      ∧ made.cls.lineage <:+ cls.lineage := by
  obtain ⟨l, hl, hfound⟩ := List.exists_of_findSome?_eq_some hfind
  obtain ⟨latest, hlatest, rfl⟩ := h
  obtain ⟨made, hmade, rfl, hsuffix⟩ := hknown.layer hlatest hl
  obtain ⟨-, hname⟩ := ((hknown.sound hmade).routines role).find hfound
  exact ⟨made, hmade, by rw [hname, hfound], hsuffix⟩

end ClassValue

/-- **A method and the one that it overrides are neighbours in the line of the class**: what the superclass of
the class that declares the one finds is the next one. -/
lemma Declared.line_next {made : Declared} {cls : ClassValue} {name : String} {c : Closure}
    (hsuffix : made.cls.lineage <:+ cls.lineage) (hc : made.cls.own.methods.find? name = some c) :
    ∃ k, (cls.line name)[k]? = some c
      ∧ (cls.line name)[k + 1]? = made.cls.parent?.bind (·.method? name) := by
  obtain ⟨nearer, heq⟩ := hsuffix
  have hline : cls.line name
      = nearer.filterMap (·.methods.find? name) ++ c :: made.cls.ancestors.filterMap (·.methods.find? name) := by
    rw [ClassValue.line, ← heq, List.filterMap_append, ClassValue.lineage, List.filterMap_cons, hc]
  refine ⟨(nearer.filterMap (·.methods.find? name)).length, by simp [hline], ?_⟩
  rw [hline, List.getElem?_append_right (Nat.le_add_right _ 1), Nat.add_sub_cancel_left,
    List.getElem?_cons_succ, ← List.head?_eq_getElem?]
  unfold ClassValue.parent?
  split
  · next hnone =>
      rw [hnone]
      rfl
  · next own ancestors hsome =>
      rw [hsome]
      exact (ClassValue.method?_eq_head? ⟨own, ancestors⟩ name).symm

/-! ## Places of `super` -/

/-- A `super` stands in a class with a superclass. -/
lemma Phrase.Settled.inherited {around : List Construct} {ref : Reference Depth} {method : Token}
    (h : Phrase.Settled around (.expr (.inherited ref method))) :
    around.find? Construct.isClass = some (.classDecl true) := by
  cases h with
  | @expr c e _ h hresolve =>
      cases e with
      | inherited ref method =>
          obtain ⟨⟨k, hk, hextended⟩, -⟩ := (h.within.checkInherited_eq_nil ref.name).mp h.check
          rw [hk]
          cases k with
          | classDecl extended => exact congrArg (some <| Construct.classDecl ·) hextended
          | _ => cases hextended
      | _ => cases hresolve

section

variable {inner : List Construct} {role : Role} {name : Token} {outer : List Construct}

variable (role name outer) in
/-- How far out the superclass and the receiver are bound in a routine of a class. -/
lemma Construct.marks_inRoutine (hinner : ∀ k ∈ inner, k.marks = [(false, false)]) :
    ∃ rest, (inner ++ .routine role name :: .classDecl true :: outer).flatMap Construct.marks
      = List.replicate (inner.length + 1) (false, false)
        ++ ((if (Construct.routine role name).hasReceiver then [(false, true)] else [])
        ++ (true, false) :: rest) := by
  refine ⟨outer.flatMap Construct.marks, ?_⟩
  have hflat : inner.flatMap Construct.marks = List.replicate inner.length (false, false) := by
    induction inner with
    | nil => rfl
    | cons k rest ih =>
        obtain ⟨hk, hrest⟩ := List.forall_mem_cons.mp hinner
        rw [List.flatMap_cons, hk, ih hrest]
        rfl
  rw [List.flatMap_append, hflat, List.replicate_succ', List.append_assoc]
  rfl

lemma Construct.findIdx_super (hinner : ∀ k ∈ inner, k.marks = [(false, false)]) :
    ((inner ++ .routine role name :: .classDecl true :: outer).flatMap Construct.marks).findIdx? (·.1)
      = some (if (Construct.routine role name).hasReceiver then inner.length + 2 else inner.length + 1) := by
  obtain ⟨rest, hmarks⟩ := marks_inRoutine role name outer hinner
  rw [hmarks]
  cases (Construct.routine role name).hasReceiver with
  | false => simp [List.findIdx?_append, List.findIdx?_replicate, List.findIdx?_cons]
  | true =>
      have hsum : 1 + (inner.length + 1) = inner.length + 2 := by omega
      simp [List.findIdx?_append, List.findIdx?_replicate, List.findIdx?_cons, hsum]

lemma Construct.findIdx_this (hinner : ∀ k ∈ inner, k.marks = [(false, false)])
    (hrole : (Construct.routine role name).hasReceiver = true) :
    ((inner ++ .routine role name :: .classDecl true :: outer).flatMap Construct.marks).findIdx? (·.2)
      = some (inner.length + 1) := by
  obtain ⟨rest, hmarks⟩ := marks_inRoutine role name outer hinner
  rw [hmarks, if_pos hrole]
  simp [List.findIdx?_append, List.findIdx?_replicate, List.findIdx?_cons]

end

/-! ## Moments at which `super` is evaluated -/

namespace Moment

/-- The `super` of the moment is evaluated in that routine of the class that the record tells of, without a
class in between, and the environment leads to the frames of the class. -/
structure SuperIn (sources : List String) (known : List Declared) (x : Moment) (inner : List Construct)
    (role : Role) (name : Token) (outer : List Construct) (made : Declared) (parent : ClassValue)
    (depth : Nat) : Prop where
  /-- It stands in the routine that the class has under that name. -/
  stands : ∃ method, Session.Stands sources (inner ++ .routine role name :: .classDecl true :: outer)
      (.expr (.inherited x.ref method))
    ∧ ∃ c s, (made.cls.own.group role).find? name.lexeme = some c ∧ s ∈ c.decl.body
      ∧ Phrase.Within (.stmt s) (.expr (.inherited x.ref method))
  between : ∀ k ∈ inner, k.isClass = false
  known : made ∈ known
  around : made.around = outer
  /-- The superclass that the execution of the declaration found. -/
  parent : made.cls.parent? = some parent
  bound : x.ref.bound = some depth
  /-- The frames from there on are those that the execution of the declaration closed its routines over. -/
  env : x.env.drop depth = made.env

/-- The `super` of the moment is looked up in the superclass, for the receiver of the routine. -/
structure Binds (sources : List String) (x : Moment) (around : List Construct) (made : Declared)
    (parent : ClassValue) (depth : Nat) (object : Object) : Prop where
  /-- The receiver is what every `this` at the place denotes. -/
  receiver : x.machine.frames.getAt x.env (depth - 1) thisName = .ok (.object object)
  same : ∀ ref, Session.Stands sources around (.expr (.receiver ref)) → ref.bound = some (depth - 1)
  /-- Its class is the class of the declaration or one that extends it. -/
  lineage : made.cls.lineage <:+ object.cls.lineage
  result : ∀ method, x.ref.inherited method x.env x.machine = parent.inherit object method x.machine
  /-- From a method of its class to the one that it overrides. -/
  next : ∀ method c, made.cls.own.methods.find? method = some c →
    ∃ k, (object.cls.line method)[k]? = some c
      ∧ (object.cls.line method)[k + 1]? = parent.method? method

/-- A `super` is evaluated in a routine of a class: with a receiver it is looked up in the superclass, for
that receiver, and without one the run breaks down. -/
def Inherits (sources : List String) (known : List Declared) (x : Moment) : Prop :=
  ∃ inner role name outer made parent depth,
    x.SuperIn sources known inner role name outer made parent depth
      ∧ if (Construct.routine role name).hasReceiver = true then
          ∃ object, x.Binds sources (inner ++ .routine role name :: .classDecl true :: outer) made parent
            depth object
        else ∀ method, x.ref.inherited method x.env x.machine
          = .error (.crash (.unbound thisName)) x.machine

lemma Inherits.mono {sources : List String} {known all : List Declared} {x : Moment}
    (h : x.Inherits sources known) (hall : known <:+ all) : x.Inherits sources all := by
  obtain ⟨inner, role, name, outer, made, parent, depth, hsuper, hrest⟩ := h
  exact ⟨inner, role, name, outer, made, parent, depth,
    { hsuper with known := hall.subset hsuper.known }, hrest⟩

end Moment

lemma Reference.inherited_of_bound {ref : Reference Depth} {env : Env} {m : Machine} {depth : Nat}
    {parent : ClassValue} {object : Object} (hbound : ref.bound = some depth)
    (hsuper : m.frames.getAt env depth superName = .ok (.classValue parent))
    (hthis : m.frames.getAt env (depth - 1) thisName = .ok (.object object)) (method : Token) :
    ref.inherited method env m = parent.inherit object method m := by
  rw [Reference.inherited, Run.get_bind_apply, hbound, ClassValue.inherit]
  dsimp only
  rw [hsuper, hthis]
  cases hfind : parent.method? method.lexeme <;>
    simp only [Run.orCrash, pure_bind, hfind, Option.elim]

/-- **What `super` leads to.** -/
theorem Machine.Knows.inherits {sources : List String} {known : List Declared} {m : Machine}
    (hm : m.Knows sources known) {around : List Construct} {env : Env} {ref : Reference Depth}
    {method : Token} (h : (m.world known).Runs sources around env (.expr (.inherited ref method))) :
    Moment.Inherits sources known ⟨.inherited, ref, env, m⟩ := by
  have hstands := h.stands hm.orderly
  obtain ⟨inner, role, name, outer, made, rfl, hin⟩ := h.inRoutine hstands.settled.inherited
  have hbound := hstands.marked.inherited_bound
  rw [Construct.findIdx_super hin.plain] at hbound
  -- the frame of the superclass
  obtain ⟨address, haddress⟩ := Option.isSome_iff_exists.mp hin.extended
  obtain ⟨parent, hparent, hsuper⟩ := (hm.kept made hin.known).superclass address haddress
  have henv : made.env = address :: made.outer := by rw [Declared.env, haddress]; rfl
  obtain ⟨frames, receivers, rfl, hlength, hplain, hreceivers⟩ := hin.env
  obtain ⟨c, s, hentry⟩ := hin.entry
  have hbetween (k : Construct) (hk : k ∈ inner) : k.isClass = false := by
    have hmarks := hin.plain k hk
    cases k with
    | classDecl extended => cases extended <;> cases hmarks
    | _ => rfl
  by_cases hrole : (Construct.routine role name).hasReceiver = true
  · rw [if_pos hrole] at hbound hreceivers
    obtain ⟨receiver, object, rfl, hreceives⟩ := hreceivers
    have hthis : m.frames.getAt (frames ++ ([receiver] ++ made.env)) (inner.length + 1) thisName
        = .ok (.object object) :=
      Frames.getAt_eq_ok (by rw [← hlength]; simp) hreceives.bound
    have hclass : m.frames.getAt (frames ++ ([receiver] ++ made.env)) (inner.length + 2) superName
        = .ok (.classValue parent) := by
      refine Frames.getAt_eq_ok ?_ hsuper
      have hone : inner.length + 2 - (inner.length + 1) = 1 := by omega
      rw [henv, List.getElem?_append_right (by omega), hlength, hone]
      rfl
    refine ⟨inner, role, name, outer, made, parent, inner.length + 2,
      { stands := ⟨method, hstands, c, s, hentry⟩
        between := hbetween
        known := hin.known
        around := hin.around
        parent := hparent
        bound := hbound
        env := ?_ }, ?_⟩
    · have hsplit : frames ++ ([receiver] ++ made.env) = (frames ++ [receiver]) ++ made.env := by simp
      show (frames ++ ([receiver] ++ made.env)).drop (inner.length + 2) = made.env
      rw [hsplit]
      exact List.drop_left' (by simp [hlength])
    · rw [if_pos hrole]
      refine ⟨object, hthis, fun this hstand => ?_, hreceives.lineage,
        Reference.inherited_of_bound hbound hclass hthis, fun method c hc => ?_⟩
      rotate_left
      · simpa [hparent] using Declared.line_next hreceives.lineage hc
      have hsome : this.bound ≠ none := by
        intro hnone
        have hall := hstand.settled.receiver.1.mp hnone _
          (List.mem_append_right _ List.mem_cons_self)
        rw [hrole] at hall
        cases hall
      rw [hstand.marked.receiver_bound hsome, Construct.findIdx_this hin.plain hrole]
      rfl
  · rw [if_neg hrole] at hbound hreceivers
    subst hreceivers
    refine ⟨inner, role, name, outer, made, parent, inner.length + 1,
      { stands := ⟨method, hstands, c, s, hentry⟩
        between := hbetween
        known := hin.known
        around := hin.around
        parent := hparent
        bound := hbound
        env := ?_ }, ?_⟩
    · exact List.drop_left' hlength
    · rw [if_neg hrole]
      intro method
      have hlt : inner.length < frames.length := by omega
      have hnot : m.frames.getAt (frames ++ ([] ++ made.env)) inner.length thisName
          = .error (.unbound thisName) := by
        have hframe := (hplain _ (List.getElem_mem hlt)).receiver
        simp only [Frames.getAt, List.getElem?_append_left hlt, List.getElem?_eq_getElem hlt]
        rw [show (m.frames.frame frames[inner.length]).find? thisName = none from hframe]
      have hclass : m.frames.getAt (frames ++ ([] ++ made.env)) (inner.length + 1) superName
          = .ok (.classValue parent) := by
        refine Frames.getAt_eq_ok ?_ hsuper
        rw [henv, List.getElem?_append_right (by omega), hlength, Nat.sub_self]
        rfl
      rw [Reference.inherited, Run.get_bind_apply, hbound]
      dsimp only
      rw [hclass, Nat.add_sub_cancel, hnot]
      rfl

end KScript

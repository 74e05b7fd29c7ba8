import KScript.Proofs.Rename.Resolve
import KScript.Proofs.Scope.Order
import KScript.Proofs.Session.Reached

/-!
# Programs that are accepted

Which programs the rules of scopes accept, said without scopes.  `Program.occurrences` lists the places
of a program that the rules speak about, each with the constructs around it from the inside out;
`Occurrence.Legal` is the rule for each kind of place.  A script that parses is accepted exactly if all
its places are legal (`Parsed.check_eq_nil_iff_legal`).

The two sides meet in `Context.Within`, which reads the registers of a context off the constructs around
a place, and in `Scopes.Fresh`, which is what complaints about redeclared names come to when statements
are listed.
-/

namespace KScript

open Scope

/-! ## Places and their surroundings -/

/-- What a routine is for. -/
inductive Role where
  | subroutine
  | method
  | staticMethod
  | getter
  | setter
deriving DecidableEq

/-- The constructs that places stand in. -/
inductive Construct where
  | block
  | forLoop
  | classDecl (extended : Bool)
  | routine (role : Role) (name : Token)

namespace Construct

/-- The construct is a class. -/
def isClass : Construct → Bool
  | classDecl _ => true
  | _ => false

/-- The construct is the body of a routine. -/
def isBody : Construct → Bool
  | routine _ _ => true
  | _ => false

/-- The construct is a class with a superclass. -/
def isExtended : Construct → Bool
  | classDecl extended => extended
  | _ => false

/-- The construct is a static method. -/
def isStatic : Construct → Bool
  | routine .staticMethod _ => true
  | _ => false

/-- The construct is an instance method that makes a new object ready. -/
def isConstructor : Construct → Bool
  | routine .method name => name.lexeme = constructorName
  | _ => false

/-- The construct is an instance method, a get method or a set method. -/
def hasReceiver : Construct → Bool
  | routine .method _ => true
  | routine .getter _ => true
  | routine .setter _ => true
  | _ => false

end Construct

/-- What the rules of scopes speak about. -/
inductive Part where
  /-- A local scope, with the names that it declares itself. -/
  | scope (names : List Token)
  | var (name : Token) (value : Option (Expr Unit))
  | classDecl (name : Token) (superclass : Option (Reference Unit))
  | giveBack (hasValue : Bool)
  | receiver
  | inherited

/-- A part of a program, with the constructs around it, innermost first. -/
structure Occurrence where
  around : List Construct
  part : Part

/-- The names that an expression reads. -/
def Expr.readNames (e : Expr Unit) : List String :=
  (e.mentions.filter (·.1 = .reading)).map (·.2.lexeme)

/-- The rule for each kind of part. -/
def Occurrence.Legal : Occurrence → Prop
  -- no name is declared twice
  | ⟨_, .scope names⟩ => (names.map Token.lexeme).Nodup
  -- a local variable is not read in its own initial value
  | ⟨around, .var name value⟩ => around ≠ [] → ∀ e ∈ value, name.lexeme ∉ e.readNames
  -- a class is not its own superclass
  | ⟨_, .classDecl name superclass⟩ => ∀ ref ∈ superclass, ref.name.lexeme ≠ name.lexeme
  -- there is a body to leave, and the nearest one gives no value back if it makes an object ready
  | ⟨around, .giveBack hasValue⟩ =>
    (∃ k ∈ around, k.isBody = true)
      ∧ (hasValue = true → ∀ k ∈ around.find? Construct.isBody, k.isConstructor = false)
  -- there is a class, and the nearest body is not static
  | ⟨around, .receiver⟩ =>
    (∃ k ∈ around, k.isClass = true) ∧ ∀ k ∈ around.find? Construct.isBody, k.isStatic = false
  -- the innermost class has a superclass, and some body around has a receiver
  | ⟨around, .inherited⟩ =>
    (∃ k ∈ around.find? Construct.isClass, k.isExtended = true)
      ∧ ∃ k ∈ around, k.hasReceiver = true

instance : DecidablePred Occurrence.Legal
  | ⟨_, .scope _⟩ => inferInstanceAs (Decidable (List.Nodup _))
  | ⟨_, .var _ _⟩ => inferInstanceAs (Decidable (_ ≠ [] → ∀ e ∈ _, _ ∉ Expr.readNames e))
  | ⟨_, .classDecl _ _⟩ => inferInstanceAs (Decidable (∀ ref ∈ _, Token.lexeme _ ≠ _))
  | ⟨_, .giveBack _⟩ => inferInstanceAs (Decidable (_ ∧ (_ → ∀ k ∈ _, Construct.isConstructor k = _)))
  | ⟨_, .receiver⟩ => inferInstanceAs (Decidable (_ ∧ ∀ k ∈ _, Construct.isStatic k = _))
  | ⟨_, .inherited⟩ => inferInstanceAs (Decidable ((∃ k ∈ _, Construct.isExtended k = _) ∧ _))

/-! ## The parts of a program -/

/-- The part that a use of a name is. -/
def Part.ofSite : Site → Option Part
  | .receiver => some .receiver
  | .inherited => some .inherited
  | _ => none

section

variable (around : List Construct)

/-- The parts of an expression. -/
def Expr.occurrences (e : Expr Unit) : List Occurrence :=
  (e.mentions.filterMap fun m => Part.ofSite m.1).map (Occurrence.mk around)

/-- The parts of an expression that may be left out. -/
def Expr.occurrencesOption : Option (Expr Unit) → List Occurrence
  | none => []
  | some e => e.occurrences around

/-- The declaration of a variable and the parts of its initial value. -/
def Occurrence.var (name : Token) (value : Option (Expr Unit)) : List Occurrence :=
  ⟨around, .var name value⟩ :: Expr.occurrencesOption around value

/-- The parts of the first clause of a `for` loop. -/
def ForStart.occurrences : Option (ForStart Unit) → List Occurrence
  | none => []
  | some (.var name value) => Occurrence.var around name value
  | some (.expr e) => e.occurrences around

end

/-- The names that the first clause of a `for` loop declares. -/
def ForStart.declares : Option (ForStart Unit) → List Token
  | some (.var name _) => [name]
  | _ => []

mutual

/-- The parts of a statement. -/
def Stmt.occurrences (around : List Construct) : Stmt Unit → List Occurrence
  | .expr e => e.occurrences around
  | .echo e => e.occurrences around
  | .var name value => Occurrence.var around name value
  | .block body =>
    ⟨around, .scope (body.flatMap Stmt.declares)⟩ :: Stmt.occurrencesAll (.block :: around) body
  | .exit _ code => code.occurrences around
  | .branch condition yes no =>
    condition.occurrences around ++ yes.occurrences around ++ Stmt.occurrencesOption around no
  | .loop condition body => condition.occurrences around ++ body.occurrences around
  | .forLoop start condition after body =>
    let inner := .forLoop :: around
    ⟨around, .scope (ForStart.declares start)⟩ :: ForStart.occurrences inner start
      ++ condition.occurrences inner ++ Expr.occurrencesOption inner after
      ++ body.occurrences inner
  | .step _ _ => []
  | .jump _ _ => []
  | .routine ⟨name, params, body⟩ =>
    ⟨around, .scope (params ++ body.flatMap Stmt.declares)⟩
      :: Stmt.occurrencesAll (.routine .subroutine name :: around) body
  | .giveBack _ value => ⟨around, .giveBack value.isSome⟩ :: Expr.occurrencesOption around value
  | .classDecl name superclass methods statics getters setters =>
    let inner := .classDecl superclass.isSome :: around
    ⟨around, .classDecl name superclass⟩ :: Stmt.occurrencesRoutines inner .method methods
      ++ Stmt.occurrencesRoutines inner .staticMethod statics
      ++ Stmt.occurrencesRoutines inner .getter getters
      ++ Stmt.occurrencesRoutines inner .setter setters

/-- The parts of listed statements. -/
def Stmt.occurrencesAll (around : List Construct) : List (Stmt Unit) → List Occurrence
  | [] => []
  | s :: rest => s.occurrences around ++ Stmt.occurrencesAll around rest

/-- The parts of a statement that may be left out. -/
def Stmt.occurrencesOption (around : List Construct) : Option (Stmt Unit) → List Occurrence
  | none => []
  | some s => s.occurrences around

/-- The parts of the routines of a class. -/
def Stmt.occurrencesRoutines (around : List Construct) (role : Role) :
    List (Routine (Stmt Unit)) → List Occurrence
  | [] => []
  | ⟨name, params, body⟩ :: rest =>
    ⟨around, .scope (params ++ body.flatMap Stmt.declares)⟩
      :: Stmt.occurrencesAll (.routine role name :: around) body
      ++ Stmt.occurrencesRoutines around role rest

end

/-- The parts of a program that the rules of scopes speak about. -/
def Program.occurrences (program : Program Unit) : List Occurrence := Stmt.occurrencesAll [] program

/-- Every part of the program is legal. -/
def Program.Legal (program : Program Unit) : Prop := ∀ o ∈ program.occurrences, o.Legal

instance (program : Program Unit) : Decidable program.Legal :=
  inferInstanceAs (Decidable (∀ o ∈ program.occurrences, o.Legal))

/-! ## Contexts and constructs -/

/-- The kind of the body of a routine. -/
def Role.body (role : Role) (name : Token) : BodyKind :=
  match role with
  | .subroutine => .subroutine
  | .method => methodKind name
  | .staticMethod => .staticMethod
  | .getter => .method
  | .setter => .method

namespace Construct

/-- The kind of the nearest body around a place. -/
def body : List Construct → BodyKind
  | [] => .none
  | .routine role name :: _ => role.body name
  | _ :: outer => body outer

/-- The kind of the innermost class around a place. -/
def enclosing : List Construct → ClassKind
  | [] => .none
  | .classDecl extended :: _ => if extended then .derived else .base
  | _ :: outer => enclosing outer

variable {around : List Construct}

lemma methodKind_ne (name : Token) :
    methodKind name ≠ .none ∧ methodKind name ≠ .staticMethod
      ∧ (methodKind name = .constructor ↔ name.lexeme = constructorName) := by
  unfold methodKind
  split <;> simp_all

lemma body_eq_none : body around = .none ↔ ¬∃ k ∈ around, k.isBody = true := by
  induction around with
  | nil => simp [body]
  | cons k outer ih =>
      cases k with
      | routine role name =>
          cases role <;> simp [body, isBody, Role.body, (methodKind_ne name).1]
      | _ => simpa [body, isBody] using ih

lemma body_eq_constructor : body around = .constructor ↔
    ¬∀ k ∈ around.find? isBody, k.isConstructor = false := by
  induction around with
  | nil => simp [body]
  | cons k outer ih =>
      cases k with
      | routine role name =>
          cases role <;> simp [body, isBody, isConstructor, Role.body, (methodKind_ne name).2.2]
      | _ => simpa [body, isBody] using ih

lemma body_eq_staticMethod : body around = .staticMethod ↔
    ¬∀ k ∈ around.find? isBody, k.isStatic = false := by
  induction around with
  | nil => simp [body]
  | cons k outer ih =>
      cases k with
      | routine role name =>
          cases role <;> simp [body, isBody, isStatic, Role.body, (methodKind_ne name).2.1]
      | _ => simpa [body, isBody] using ih

lemma enclosing_eq_none : enclosing around = .none ↔ ¬∃ k ∈ around, k.isClass = true := by
  induction around with
  | nil => simp [enclosing]
  | cons k outer ih =>
      cases k with
      | classDecl extended => cases extended <;> simp [enclosing, isClass]
      | _ => simpa [enclosing, isClass] using ih

lemma enclosing_eq_derived : enclosing around = .derived ↔
    ∃ k ∈ around.find? isClass, k.isExtended = true := by
  induction around with
  | nil => simp [enclosing]
  | cons k outer ih =>
      cases k with
      | classDecl extended => cases extended <;> simp [enclosing, isClass, isExtended]
      | _ => simpa [enclosing, isClass] using ih

end Construct

namespace Scope.Context

/-- The registers of the context are those of a place inside the constructs. -/
structure Within (c : Context) (around : List Construct) : Prop where
  body : c.body = Construct.body around
  enclosing : c.enclosing = Construct.enclosing around
  receiver : c.hasReceiver = around.any Construct.hasReceiver
  topLevel : c.scopes = [] ↔ around = []

variable {c : Context} {around : List Construct}

lemma hasReceiver_eq_any (c : Context) : c.hasReceiver = c.scopes.marks.any (·.2) := by
  simp [hasReceiver, Scopes.marks, Function.comp_def]

lemma within_topLevel : Scope.topLevel.Within [] := ⟨rfl, rfl, rfl, by simp [Scope.topLevel]⟩

namespace Within

/-- Scopes with the same reserved names stand in the same constructs. -/
lemma congr {scopes : Scopes} (h : c.Within around) (hmarks : scopes.marks = c.scopes.marks) :
    Within { c with scopes } around where
  body := h.body
  enclosing := h.enclosing
  receiver := by rw [← h.receiver, hasReceiver_eq_any, hasReceiver_eq_any, hmarks]
  topLevel := by
    have hlength := congrArg List.length hmarks
    simp only [Scopes.marks, List.length_map] at hlength
    rw [← h.topLevel, ← List.length_eq_zero_iff, ← List.length_eq_zero_iff, hlength]

lemma declare (h : c.Within around) {name : Token} (hname : name.Declarable) :
    (c.declare name).Within around := h.congr (Scopes.marks_declare hname)

lemma bind (h : c.Within around) {name : Token} (hname : name.Declarable) :
    (c.bind name).Within around :=
  h.congr ((Scopes.marks_define hname).trans (Scopes.marks_declare hname))

lemma block (h : c.Within around) : c.enter.Within (.block :: around) where
  body := h.body
  enclosing := h.enclosing
  receiver := h.receiver
  topLevel := by simp [enter, Scopes.enter]

lemma forLoop (h : c.Within around) : c.enter.Within (.forLoop :: around) where
  body := h.body
  enclosing := h.enclosing
  receiver := h.receiver
  topLevel := by simp [enter, Scopes.enter]

end Within

lemma hasReceiver_inRoutine (kind : BodyKind) {params : List Token}
    (hparams : ∀ p ∈ params, p.Declarable) :
    (c.inRoutine kind params).hasReceiver = c.hasReceiver := by
  rw [hasReceiver_eq_any, inRoutine, Scopes.marks_defineAll hparams, hasReceiver_eq_any]
  rfl

namespace Within

lemma subroutine (h : c.Within around) (name : Token) {params : List Token}
    (hparams : ∀ p ∈ params, p.Declarable) :
    (c.inRoutine .subroutine params).Within (.routine .subroutine name :: around) where
  body := rfl
  enclosing := h.enclosing
  receiver := by rw [hasReceiver_inRoutine _ hparams, h.receiver]; rfl
  topLevel := by simp [inRoutine, ← List.length_eq_zero_iff, Scopes.enter]

/-- The routines of a class, with or without a receiver. -/
lemma member (h : c.Within around) (superclass : Option (Reference Unit)) (role : Role)
    (hrole : role ≠ .subroutine) (name : Token) {params : List Token}
    (hparams : ∀ p ∈ params, p.Declarable) {outer : Context}
    (houter : outer = if role = .staticMethod then c.inClass superclass
      else (c.inClass superclass).withReceiver) :
    (outer.inRoutine (role.body name) params).Within
      (.routine role name :: .classDecl superclass.isSome :: around) where
  body := rfl
  enclosing := by
    subst houter
    split <;> cases superclass <;> rfl
  receiver := by
    have hclass : (c.inClass superclass).hasReceiver = around.any Construct.hasReceiver := by
      rw [← h.receiver]
      cases superclass with
      | none => rfl
      | some superclass =>
          simp [hasReceiver, inClass, Scopes.enterWith, Table.contains, Table.find?,
            Table.singleton, Table.lookup, superName, thisName]
    have hreceiver : (c.inClass superclass).withReceiver.hasReceiver = true := by
      simp [hasReceiver, withReceiver, Scopes.enterWith, Table.contains, Table.find?,
        Table.singleton, Table.lookup]
    rw [hasReceiver_inRoutine _ hparams, houter]
    cases role <;> simp_all [Construct.hasReceiver]
  topLevel := by simp [inRoutine, ← List.length_eq_zero_iff, Scopes.enter]

end Within

end Scope.Context

/-! ## Names that are new -/

namespace Scopes

/-- The names can be declared one after the other in the innermost scope, if there is one. -/
def Fresh (scopes : Scopes) (names : List Token) : Prop :=
  scopes ≠ [] →
    (names.map Token.lexeme).Nodup ∧ ∀ p ∈ names, scopes.declares p.lexeme = false

variable {scopes : Scopes}

lemma fresh_nil : scopes.Fresh [] := fun _ => by simp

lemma declares_bind (h : scopes ≠ []) (name key : String) :
    ((scopes.declare name).define name).declares key = (decide (name = key) || scopes.declares key) := by
  rcases scopes with _ | ⟨inner, outer⟩
  · exact absurd rfl h
  · change Table.contains (Table.insert (if inner.contains name then inner
      else inner.insert name false) name true) key = _
    rw [Table.contains_insert]
    split
    · rfl
    · rw [Table.contains_insert, ← Bool.or_assoc, Bool.or_self]
      rfl

lemma fresh_cons {name : Token} {names : List Token} :
    scopes.Fresh (name :: names) ↔ scopes.declares name.lexeme = false
      ∧ ((scopes.declare name.lexeme).define name.lexeme).Fresh names := by
  by_cases hscopes : scopes = []
  · subst hscopes
    simp [Fresh, declares, declare, define]
  · have hopen : (scopes.declare name.lexeme).define name.lexeme ≠ [] := by
      intro hnil
      have hlength := congrArg List.length hnil
      simp [hscopes] at hlength
    simp only [Fresh, hopen, hscopes, declares_bind hscopes, ne_eq, not_false_iff, true_implies,
      List.map_cons, List.nodup_cons, List.mem_map, List.forall_mem_cons, Bool.or_eq_false_iff,
      decide_eq_false_iff_not]
    grind

lemma fresh_append {names more : List Token} :
    scopes.Fresh (names ++ more) ↔ scopes.Fresh names ∧ (scopes.defineAll names).Fresh more := by
  induction names generalizing scopes with
  | nil => simp [fresh_nil]
  | cons name rest ih => simp [fresh_cons, ih, and_assoc]

/-- A new scope has no names. -/
lemma fresh_enter {names : List Token} :
    scopes.enter.Fresh names ↔ (names.map Token.lexeme).Nodup := by
  simp [Fresh, enter, declares, Table.contains]

lemma AllReady.isPending (h : scopes.AllReady) (name : String) : scopes.isPending name = false := by
  rcases scopes with _ | ⟨inner, outer⟩
  · rfl
  · exact decide_eq_false (h inner List.mem_cons_self name)

/-- While an initial value is worked out, only its own local variable is pending. -/
lemma AllReady.isPending_declare (h : scopes.AllReady) {name : String}
    (hnew : scopes.declares name = false) (key : String) :
    (scopes.declare name).isPending key = true ↔ scopes ≠ [] ∧ key = name := by
  rcases scopes with _ | ⟨inner, outer⟩
  · simp [declare, Scopes.isPending]
  · have hnone : inner.contains name = false := hnew
    have hready : inner.find? key ≠ some false := h inner List.mem_cons_self key
    have hfind : (inner.insert name false).find? key = some false ↔ key = name := by
      rw [Table.find?_insert]
      by_cases hkey : name = key
      · simp [hkey]
      · simp [hkey, hready, Ne.symm hkey]
    simpa [declare, hnone, Scopes.isPending] using hfind

end Scopes

/-! ## Expressions -/

namespace Scope.Context

/-- The complaints about one use of a name in an expression. -/
def checkMention (c : Context) (m : Site × Token) : List Diagnostic :=
  match m.1 with
  | .reading => c.checkRead m.2
  | .receiver => c.checkReceiver m.2
  | .inherited => c.checkInherited m.2
  | _ => []

end Scope.Context

mutual

lemma Expr.check_eq (c : Context) : ∀ e : Expr Unit, e.check c = e.mentions.flatMap c.checkMention
  | .literal _ => rfl
  | .array items => Expr.checkAll_eq c items
  | .grouping inner => Expr.check_eq c inner
  | .unary _ operand => Expr.check_eq c operand
  | .binary left _ right | .logical left _ right => by
      simp [Expr.check, Expr.mentions, Expr.check_eq c left, Expr.check_eq c right]
  | .conditional condition yes no => by
      simp [Expr.check, Expr.mentions, Expr.check_eq c condition, Expr.check_eq c yes,
        Expr.check_eq c no]
  | .variable _ => by simp [Expr.check, Expr.mentions, Context.checkMention]
  | .assign _ value => by simp [Expr.check, Expr.mentions, Expr.check_eq c value, Context.checkMention]
  | .step _ _ => rfl
  | .call callee _ args => by
      simp [Expr.check, Expr.mentions, Expr.check_eq c callee, Expr.checkAll_eq c args]
  | .get object _ _ => Expr.check_eq c object
  | .set object _ value _ => by
      simp [Expr.check, Expr.mentions, Expr.check_eq c object, Expr.check_eq c value]
  | .receiver _ | .inherited _ _ => by simp [Expr.check, Expr.mentions, Context.checkMention]

lemma Expr.checkAll_eq (c : Context) : ∀ es : List (Expr Unit),
    Expr.checkAll c es = (Expr.mentionsAll es).flatMap c.checkMention
  | [] => rfl
  | e :: rest => by
      simp [Expr.checkAll, Expr.mentionsAll, Expr.check_eq c e, Expr.checkAll_eq c rest]

end

namespace Scope.Context.Within

variable {c : Context} {around : List Construct}

lemma checkReceiver_eq_nil (h : c.Within around) (keyword : Token) :
    c.checkReceiver keyword = [] ↔ Occurrence.Legal ⟨around, .receiver⟩ := by
  have hclass : c.enclosing = .none ↔ _ := h.enclosing ▸ Construct.enclosing_eq_none
  have hstatic : c.body = .staticMethod ↔ _ := h.body ▸ Construct.body_eq_staticMethod
  simp only [checkReceiver, Occurrence.Legal]
  split
  · next hnone => simp [hclass.mp hnone]
  · next hsome =>
      rw [complainWhen_eq_nil, decide_eq_false_iff_not, hstatic, not_not]
      exact (and_iff_right (not_not.mp fun hnot => hsome (hclass.mpr hnot))).symm

lemma checkInherited_eq_nil (h : c.Within around) (keyword : Token) :
    c.checkInherited keyword = [] ↔ Occurrence.Legal ⟨around, .inherited⟩ := by
  have hderived : c.enclosing = .derived ↔ _ := h.enclosing ▸ Construct.enclosing_eq_derived
  have hreceiver : c.hasReceiver = true ↔ ∃ k ∈ around, k.hasReceiver = true := by
    rw [h.receiver, List.any_eq_true]
  simp only [checkInherited, Occurrence.Legal, ← hderived, ← hreceiver]
  cases c.enclosing <;> simp [complainWhen_eq_nil]

lemma checkReturn_eq_nil (h : c.Within around) (keyword : Token) (hasValue : Bool) :
    c.checkReturn keyword hasValue = [] ↔ Occurrence.Legal ⟨around, .giveBack hasValue⟩ := by
  have hnone : c.body = .none ↔ _ := h.body ▸ Construct.body_eq_none
  have hconstructor : c.body = .constructor ↔ _ := h.body ▸ Construct.body_eq_constructor
  simp only [checkReturn, Occurrence.Legal, List.append_eq_nil_iff, complainWhen_eq_nil,
    Bool.and_eq_false_iff, decide_eq_false_iff_not, hnone, hconstructor, not_not]
  cases hasValue <;> simp

/-- An expression is accepted if it reads no pending name and its parts are legal. -/
lemma check_eq_nil (h : c.Within around) (e : Expr Unit) :
    e.check c = [] ↔ (∀ name ∈ e.readNames, c.scopes.isPending name = false)
      ∧ ∀ o ∈ e.occurrences around, o.Legal := by
  rw [Expr.check_eq, Expr.readNames, Expr.occurrences]
  induction e.mentions with
  | nil => simp
  | cons m rest ih =>
      obtain ⟨site, name⟩ := m
      rw [List.flatMap_cons, List.append_eq_nil_iff, ih]
      cases site with
      | reading => simp [checkMention, checkRead, complainWhen_eq_nil, Part.ofSite, and_assoc]
      | receiver =>
          simp [checkMention, h.checkReceiver_eq_nil, Part.ofSite, and_left_comm]
      | inherited =>
          simp [checkMention, h.checkInherited_eq_nil, Part.ofSite, and_left_comm]
      | _ => simp [checkMention, Part.ofSite]

lemma check_eq_nil_of_ready (h : c.Within around) (hready : c.scopes.AllReady) (e : Expr Unit) :
    e.check c = [] ↔ ∀ o ∈ e.occurrences around, o.Legal := by
  rw [h.check_eq_nil]
  exact and_iff_right fun name _ => hready.isPending name

lemma checkOption_eq_nil (h : c.Within around) (hready : c.scopes.AllReady)
    (e : Option (Expr Unit)) :
    Expr.checkOption c e = [] ↔ ∀ o ∈ Expr.occurrencesOption around e, o.Legal := by
  cases e with
  | none => simp [Expr.checkOption, Expr.occurrencesOption]
  | some e => exact h.check_eq_nil_of_ready hready e

lemma checkNew_eq_nil {name : Token} : c.checkNew name = [] ↔ c.scopes.Fresh [name] := by
  rw [checkNew, complainWhen_eq_nil, Scopes.fresh_cons]
  simp [Scopes.fresh_nil]

lemma checkParams_eq_nil {params : List Token} :
    c.checkParams params = [] ↔ c.scopes.Fresh params := by
  induction params generalizing c with
  | nil => simp [checkParams, Scopes.fresh_nil]
  | cons name rest ih =>
      rw [checkParams, List.append_eq_nil_iff, ih, checkNew, complainWhen_eq_nil,
        Scopes.fresh_cons]
      rfl

lemma checkVar_eq_nil (h : c.Within around) (hready : c.scopes.AllReady) {name : Token}
    (hname : name.Declarable) (value : Option (Expr Unit)) :
    c.checkVar name value = [] ↔ c.scopes.Fresh [name]
      ∧ ∀ o ∈ Occurrence.var around name value, o.Legal := by
  rw [checkVar, List.append_eq_nil_iff, checkNew_eq_nil, Occurrence.var, List.forall_mem_cons]
  refine and_congr_right fun hfresh => ?_
  have hnew : c.scopes.declares name.lexeme = false := (Scopes.fresh_cons.mp hfresh).1
  cases value with
  | none => simp [Expr.checkOption, Expr.occurrencesOption, Occurrence.Legal]
  | some e =>
      refine ((h.declare hname).check_eq_nil e).trans (and_congr_left fun _ => ?_)
      have hpending (key : String) : (c.declare name).scopes.isPending key = false ↔
          (around ≠ [] → key ≠ name.lexeme) := by
        have hiff : (c.declare name).scopes.isPending key = true ↔ _ :=
          hready.isPending_declare hnew key
        rw [← Bool.not_eq_true, hiff, not_and, ne_eq, h.topLevel]
      simp only [hpending, Occurrence.Legal, Option.mem_some_iff, forall_eq']
      exact ⟨fun hall hlocal hmem => hall _ hmem hlocal rfl,
        fun hall key hmem hlocal hkey => hall hlocal (hkey ▸ hmem)⟩

end Scope.Context.Within

/-! ## Statements -/

lemma Scope.Context.Within.after {c : Context} {around : List Construct} (h : c.Within around)
    {s : Stmt Unit} (hs : s.Proper) : (c.after s).Within around := by
  cases s with
  | var name value => exact h.bind hs.1
  | routine decl => exact h.bind hs.1
  | classDecl name superclass methods statics getters setters => exact h.bind hs.1
  | _ => exact h

lemma Scopes.AllReady.after {c : Context} (h : c.scopes.AllReady) (s : Stmt Unit) :
    (c.after s).scopes.AllReady := by
  rw [c.scopes_after s]
  exact h.defineAll _

section

variable {c : Context} {around : List Construct}

lemma Scope.Context.Within.afterStart (h : c.Within around) {start : Option (ForStart Unit)}
    (hstart : ForStart.Proper start) : (c.afterStart start).Within around := by
  rcases start with _ | ⟨name, value⟩ | e
  · exact h
  · exact h.bind hstart.1
  · exact h

lemma Scopes.AllReady.afterStart (h : c.scopes.AllReady) (start : Option (ForStart Unit)) :
    (c.afterStart start).scopes.AllReady := by
  rcases start with _ | ⟨name, value⟩ | e
  · exact h
  · exact h.bind name.lexeme
  · exact h

lemma Scope.Context.Within.checkStart_eq_nil (h : c.Within around) (hready : c.scopes.AllReady)
    {start : Option (ForStart Unit)} (hstart : ForStart.Proper start) :
    ForStart.check c start = [] ↔ c.scopes.Fresh (ForStart.declares start)
      ∧ ∀ o ∈ ForStart.occurrences around start, o.Legal := by
  rcases start with _ | ⟨name, value⟩ | e
  · simp [ForStart.check, ForStart.declares, ForStart.occurrences, Scopes.fresh_nil]
  · exact h.checkVar_eq_nil hready hstart.1 value
  · refine (h.check_eq_nil_of_ready hready e).trans (and_iff_right Scopes.fresh_nil).symm

lemma Scope.Context.checkSuperclass_eq_nil (hready : c.scopes.AllReady) {name : Token}
    {superclass : Option (Reference Unit)} :
    (c.bind name).checkSuperclass name superclass = [] ↔
      Occurrence.Legal ⟨around, .classDecl name superclass⟩ := by
  have hready' : (c.bind name).scopes.AllReady := hready.bind name.lexeme
  cases superclass with
  | none => simp [checkSuperclass, Occurrence.Legal]
  | some ref =>
      simp [checkSuperclass, Occurrence.Legal, complainWhen_eq_nil, checkRead,
        hready'.isPending]

/-- The parameters and the body of a routine share one scope. -/
lemma Scope.Context.checkRoutine_eq_nil {kind : BodyKind} {params : List Token}
    {body : List (Stmt Unit)} {legal : Prop}
    (hbody : Stmt.checkAll (c.inRoutine kind params) body = [] ↔
      (c.inRoutine kind params).scopes.Fresh (body.flatMap Stmt.declares) ∧ legal) :
    c.enter.checkParams params ++ Stmt.checkAll (c.inRoutine kind params) body = [] ↔
      Occurrence.Legal ⟨around, .scope (params ++ body.flatMap Stmt.declares)⟩ ∧ legal := by
  rw [List.append_eq_nil_iff, Within.checkParams_eq_nil, hbody, ← and_assoc]
  refine and_congr_left fun _ => ?_
  exact Scopes.fresh_append.symm.trans Scopes.fresh_enter

lemma Scopes.AllReady.inRoutine (h : c.scopes.AllReady) (kind : BodyKind) (params : List Token) :
    (c.inRoutine kind params).scopes.AllReady := h.enter.defineAll params

lemma Scopes.AllReady.inClass (h : c.scopes.AllReady) (superclass : Option (Reference Unit)) :
    (c.inClass superclass).scopes.AllReady := by
  cases superclass with
  | none => exact h
  | some superclass => exact h.enterWith superName

end

mutual

/-- **A statement is accepted if its names are new and its parts are legal.** -/
theorem Stmt.check_eq_nil : ∀ {c : Context} {around : List Construct} {s : Stmt Unit},
    c.Within around → c.scopes.AllReady → s.Placed → s.Proper →
    (s.check c = [] ↔ c.scopes.Fresh s.declares ∧ ∀ o ∈ s.occurrences around, o.Legal)
  | _, _, .expr e, hc, hready, _, _ | _, _, .echo e, hc, hready, _, _ =>
      (hc.check_eq_nil_of_ready hready e).trans (and_iff_right Scopes.fresh_nil).symm
  | _, _, .var name value, hc, hready, _, hs => hc.checkVar_eq_nil hready hs.1 value
  | c, around, .block body, hc, hready, hplaced, hs => by
      have hbody := Stmt.checkAll_eq_nil hc.block hready.enter hplaced hs
      rw [Context.enter, Scopes.fresh_enter] at hbody
      rw [Stmt.check, Context.enter, hbody, Stmt.occurrences, List.forall_mem_cons]
      exact (and_iff_right Scopes.fresh_nil).symm
  | _, _, .exit _ code, hc, hready, _, _ =>
      (hc.check_eq_nil_of_ready hready code).trans (and_iff_right Scopes.fresh_nil).symm
  | c, around, .branch condition yes no, hc, hready, ⟨hdecl, hyes, hno⟩, ⟨_, hys, hns⟩ => by
      have hthen := Stmt.check_eq_nil hc hready hyes hys
      rw [Stmt.declares_of_not_isDeclaration hdecl] at hthen
      rw [Stmt.check, List.append_eq_nil_iff, List.append_eq_nil_iff,
        hc.check_eq_nil_of_ready hready, hthen, Stmt.checkOption_eq_nil hc hready hno hns,
        Stmt.occurrences, List.forall_mem_append, List.forall_mem_append]
      exact ⟨fun h => ⟨Scopes.fresh_nil, ⟨h.1.1, h.1.2.2⟩, h.2⟩,
        fun h => ⟨⟨h.2.1.1, Scopes.fresh_nil, h.2.1.2⟩, h.2.2⟩⟩
  | c, around, .loop condition body, hc, hready, ⟨hdecl, hbody⟩, ⟨_, hbs⟩ => by
      have hloop := Stmt.check_eq_nil hc hready hbody hbs
      rw [Stmt.declares_of_not_isDeclaration hdecl] at hloop
      rw [Stmt.check, List.append_eq_nil_iff, hc.check_eq_nil_of_ready hready, hloop,
        Stmt.occurrences, List.forall_mem_append]
      exact ⟨fun h => ⟨Scopes.fresh_nil, h.1, h.2.2⟩, fun h => ⟨h.2.1, Scopes.fresh_nil, h.2.2⟩⟩
  | c, around, .forLoop start condition after body, hc, hready, ⟨hdecl, hbody⟩,
      ⟨hstart, _, _, hbs⟩ => by
      have hinner := hc.forLoop.afterStart hstart
      have hready' := Scopes.AllReady.afterStart (c := c.enter) hready.enter start
      have hloop := Stmt.check_eq_nil hinner hready' hbody hbs
      have hfirst := hc.forLoop.checkStart_eq_nil hready.enter hstart
      rw [Stmt.declares_of_not_isDeclaration hdecl] at hloop
      rw [Context.enter, Scopes.fresh_enter] at hfirst
      simp only [Stmt.check, Stmt.occurrences, List.append_eq_nil_iff, List.forall_mem_append,
        List.forall_mem_cons, hinner.check_eq_nil_of_ready hready',
        hinner.checkOption_eq_nil hready', hloop]
      rw [Context.enter, hfirst]
      exact ⟨fun h => ⟨Scopes.fresh_nil, ⟨⟨⟨h.1.1.1.1, h.1.1.1.2⟩, h.1.1.2⟩, h.1.2⟩, h.2.2⟩,
        fun h => ⟨h.2.1, Scopes.fresh_nil, h.2.2⟩⟩
  | _, _, .step _ _, _, _, _, _ | _, _, .jump _ _, _, _, _, _ =>
      by simp [Stmt.check, Stmt.occurrences, Stmt.declares, Scopes.fresh_nil]
  | c, around, .routine ⟨name, params, body⟩, hc, hready, hplaced, ⟨hname, hparams, hbs⟩ => by
      have hbound : (c.bind name).scopes.AllReady := hready.bind name.lexeme
      have hbody := Stmt.checkAll_eq_nil ((hc.bind hname).subroutine name hparams)
        (hbound.inRoutine .subroutine params) hplaced hbs
      rw [Stmt.check, List.append_assoc, List.append_eq_nil_iff, Context.Within.checkNew_eq_nil,
        Context.checkRoutine_eq_nil hbody, Stmt.occurrences, List.forall_mem_cons]
      rfl
  | c, around, .giveBack keyword value, hc, hready, _, _ => by
      rw [Stmt.check, List.append_eq_nil_iff, hc.checkReturn_eq_nil, hc.checkOption_eq_nil hready,
        Stmt.occurrences, List.forall_mem_cons]
      exact (and_iff_right Scopes.fresh_nil).symm
  | c, around, .classDecl name superclass methods statics getters setters, hc, hready,
      ⟨hm, hs, hg, ht⟩, ⟨hname, _, hms, hss, hgs, hts, _, _⟩ => by
      have hclass := hc.bind hname
      have hready' : ((c.bind name).inClass superclass).scopes.AllReady :=
        (hready.bind name.lexeme).inClass superclass
      have hreceiver := hready'.enterWith thisName
      have hmember (role : Role) (hrole : role ≠ .subroutine) (name : Token) (params : List Token)
          (h : ∀ p ∈ params, Token.Declarable p) :=
        hclass.member superclass role hrole name h rfl
      have hmethods := Stmt.checkRoutines_eq_nil .method methodKind
        (hmember .method (by decide)) hreceiver hm hms
      have hgetters := Stmt.checkRoutines_eq_nil .getter (fun _ => .method)
        (hmember .getter (by decide)) hreceiver hg hgs
      have hsetters := Stmt.checkRoutines_eq_nil .setter (fun _ => .method)
        (hmember .setter (by decide)) hreceiver ht hts
      have hstatics := Stmt.checkRoutines_eq_nil .staticMethod (fun _ => .staticMethod)
        (hmember .staticMethod (by decide)) hready' hs hss
      have hsuper : _ ↔ Occurrence.Legal ⟨around, .classDecl name superclass⟩ :=
        Context.checkSuperclass_eq_nil hready
      simp only [Stmt.check, Stmt.occurrences, List.append_eq_nil_iff, List.forall_mem_append,
        List.forall_mem_cons, Context.Within.checkNew_eq_nil, hsuper]
      exact ⟨fun ⟨⟨⟨⟨⟨hnew, hself⟩, h1⟩, h2⟩, h3⟩, h4⟩ => ⟨hnew, ⟨⟨⟨hself, hmethods.mp h1⟩,
          hstatics.mp h4⟩, hgetters.mp h2⟩, hsetters.mp h3⟩,
        fun ⟨hnew, ⟨⟨⟨hself, h1⟩, h4⟩, h2⟩, h3⟩ => ⟨⟨⟨⟨⟨hnew, hself⟩, hmethods.mpr h1⟩,
          hgetters.mpr h2⟩, hsetters.mpr h3⟩, hstatics.mpr h4⟩⟩

theorem Stmt.checkAll_eq_nil : ∀ {c : Context} {around : List Construct} {ss : List (Stmt Unit)},
    c.Within around → c.scopes.AllReady → Stmt.PlacedAll ss → Stmt.ProperAll ss →
    (Stmt.checkAll c ss = [] ↔ c.scopes.Fresh (ss.flatMap Stmt.declares)
      ∧ ∀ o ∈ Stmt.occurrencesAll around ss, o.Legal)
  | _, _, [], _, _, _, _ => by simp [Stmt.checkAll, Stmt.occurrencesAll, Scopes.fresh_nil]
  | c, around, s :: rest, hc, hready, ⟨hplaced, hrest⟩, ⟨hs, hrs⟩ => by
      rw [Stmt.checkAll, List.append_eq_nil_iff, Stmt.check_eq_nil hc hready hplaced hs,
        Stmt.checkAll_eq_nil (hc.after hs) (hready.after s) hrest hrs, Stmt.occurrencesAll,
        List.forall_mem_append, List.flatMap_cons, Scopes.fresh_append, c.scopes_after s]
      exact and_and_and_comm

theorem Stmt.checkOption_eq_nil : ∀ {c : Context} {around : List Construct}
    {s : Option (Stmt Unit)}, c.Within around → c.scopes.AllReady → Stmt.PlacedOption s →
    Stmt.ProperOption s →
    (Stmt.checkOption c s = [] ↔ ∀ o ∈ Stmt.occurrencesOption around s, o.Legal)
  | _, _, none, _, _, _, _ => by simp [Stmt.checkOption, Stmt.occurrencesOption]
  | _, _, some s, hc, hready, ⟨hdecl, hplaced⟩, hs => by
      have hcheck := Stmt.check_eq_nil hc hready hplaced hs
      rw [Stmt.declares_of_not_isDeclaration hdecl] at hcheck
      exact hcheck.trans (and_iff_right Scopes.fresh_nil)

theorem Stmt.checkRoutines_eq_nil : ∀ {c : Context} {around : List Construct} (role : Role)
    (kind : Token → BodyKind) {rs : List (Routine (Stmt Unit))},
    (∀ name params, (∀ p ∈ params, Token.Declarable p) →
      (c.inRoutine (kind name) params).Within (.routine role name :: around)) →
    c.scopes.AllReady → Stmt.PlacedRoutines rs → Stmt.ProperRoutines rs →
    (Stmt.checkRoutines c kind rs = [] ↔ ∀ o ∈ Stmt.occurrencesRoutines around role rs, o.Legal)
  | _, _, _, _, [], _, _, _, _ => by simp [Stmt.checkRoutines, Stmt.occurrencesRoutines]
  | c, around, role, kind, ⟨name, params, body⟩ :: rest, hc, hready, ⟨hplaced, hrest⟩,
      ⟨hparams, hbs, hrs⟩ => by
      have hbody := Stmt.checkAll_eq_nil (hc name params hparams) (hready.inRoutine _ params)
        hplaced hbs
      rw [Stmt.checkRoutines, List.append_eq_nil_iff, Context.checkRoutine_eq_nil hbody,
        Stmt.checkRoutines_eq_nil role kind hc hready hrest hrs, Stmt.occurrencesRoutines,
        List.forall_mem_append, List.forall_mem_cons]

end

namespace Parsed

/-- **The rules of scopes accept exactly the legal programs.**  For every script that parses without a
complaint, no rule complains about it if and only if

- no local scope (a block, the clauses of a `for` loop, the parameters and the body of a routine
  together) declares a name twice,
- no local variable is read in its own initial value,
- every `return` is in a body, and a `return` with a value is not nearest to an instance method named
  `construct`,
- no class names itself as its superclass,
- every `this` is in a class and not nearest to a static method,
- the innermost class around every `super` has a superclass, and some instance, get or set method is
  around it. -/
theorem check_eq_nil_iff_legal {source : String} (h : (Parsed.ofSource source).reports = []) :
    (Parsed.ofSource source).program.check = [] ↔ (Parsed.ofSource source).program.Legal := by
  have hplaced : Stmt.PlacedAll (Parsed.ofSource source).program := Parsed.placed _ _ _
  have hcheck := Stmt.checkAll_eq_nil Context.within_topLevel Context.settled_topLevel.ready hplaced
    (Parsed.proper_ofSource h)
  exact hcheck.trans (and_iff_right fun hopen => absurd rfl hopen)

/-- The superclass is named in a static method.  In the first script the class of that method stands in a
method of another class. -/
def innerStaticScript : String :=
  "class A \x7b\x7d class B \x7b n() \x7b class D <- A \x7b static s() \x7b super.m; \x7d \x7d \x7d \x7d"

@[inherit_doc innerStaticScript]
def outerStaticScript : String :=
  "class A \x7b\x7d class D <- A \x7b static s() \x7b super.m; \x7d \x7d"

theorem check_eq_nil_iff_legal_staticScripts :
    ((Parsed.ofSource innerStaticScript).reports = []
        ∧ (Parsed.ofSource innerStaticScript).program.Legal)
      ∧ (Parsed.ofSource outerStaticScript).reports = []
        ∧ ¬(Parsed.ofSource outerStaticScript).program.Legal := by
  have hinner : (Parsed.ofSource innerStaticScript).reports = [] := by decide +kernel
  have houter : (Parsed.ofSource outerStaticScript).reports = [] := by decide +kernel
  have haccepted : (Parsed.ofSource innerStaticScript).program.check = [] := by decide +kernel
  have hrejected : (Parsed.ofSource outerStaticScript).program.check ≠ [] := by decide +kernel
  exact ⟨⟨hinner, (check_eq_nil_iff_legal hinner).mp haccepted⟩, houter,
    fun hlegal => hrejected ((check_eq_nil_iff_legal houter).mpr hlegal)⟩

/-- A parameter and a variable of the body share a scope; those of an inner block do not. -/
example : ¬(Parsed.ofSource "sub f(a) \x7b var a = true; \x7d").program.Legal
    ∧ (Parsed.ofSource "sub f(a) \x7b \x7b var a = true; \x7d \x7d").program.Legal := by
  decide +kernel

end Parsed

end KScript

import KScript.Proofs.Scope.Admitted

/-!
# The contexts of a program

What holds of the scopes around every place of an admitted program.  Around a statement no name is
pending; around an expression at most one is, the local variable in whose initial value the expression
stands.  And around a place in a class with a superclass there is the scope of that superclass, with at
most one receiver in between, right inside of it (`Owned`).
-/

namespace KScript

open Scope

lemma Table.contains_insert {α : Type} (t : Table α) (name key : String) (value : α) :
    (t.insert name value).contains key = (decide (name = key) || t.contains key) := by
  by_cases h : name = key <;> simp [Table.contains, Table.find?_insert, h]

lemma Table.contains_iff {α : Type} {t : Table α} {name : String} :
    t.contains name = true ↔ ∃ value, t.find? name = some value := Option.isSome_iff_exists

/-! ## Reserved names -/

/-- For each scope, whether the superclass and whether the receiver is bound in it. -/
def Scopes.marks (scopes : Scopes) : List (Bool × Bool) :=
  scopes.map fun s => (s.contains superName, s.contains thisName)

/-- From inside out, the first scope that binds a superclass or a receiver binds a superclass, or it
binds the receiver of the class whose superclass the next scope binds. -/
def Owned : List (Bool × Bool) → Prop
  | [] => False
  | (true, receiver) :: _ => receiver = false
  | (false, true) :: outer => outer.head? = some (true, false)
  | (false, false) :: outer => Owned outer

namespace Scopes

variable {scopes : Scopes} {name : Token}

lemma marks_declare (h : name.Declarable) : (scopes.declare name.lexeme).marks = scopes.marks := by
  cases scopes with
  | nil => rfl
  | cons inner outer =>
      unfold declare
      by_cases hc : inner.contains name.lexeme = true
      · simp [hc]
      · simp [hc, marks, Table.contains_insert, h.1, h.2]

lemma marks_define (h : name.Declarable) : (scopes.define name.lexeme).marks = scopes.marks := by
  cases scopes with
  | nil => rfl
  | cons inner outer => simp [define, marks, Table.contains_insert, h.1, h.2]

lemma marks_defineAll {names : List Token} (h : ∀ p ∈ names, p.Declarable) :
    (scopes.defineAll names).marks = scopes.marks := by
  induction names generalizing scopes with
  | nil => rfl
  | cons p rest ih =>
      have ⟨hp, hrest⟩ := List.forall_mem_cons.mp h
      exact (ih hrest).trans ((marks_define hp).trans (marks_declare hp))

/-- Where the scopes are owned, the superclass is bound.  The scope right inside of it binds the
receiver, or no scope up to it does. -/
lemma exists_of_owned (h : Owned (marks scopes)) : ∃ d, scopes.depth superName = some d ∧
    ((∃ k scope, d = k + 1 ∧ scopes[k]? = some scope ∧ scope.contains thisName = true) ∨
      ∀ scope ∈ scopes.take (d + 1), scope.contains thisName = false) := by
  induction scopes with
  | nil => exact h.elim
  | cons inner outer ih =>
      rcases hsuper : inner.contains superName with _ | _
      · rcases hthis : inner.contains thisName with _ | _
        · obtain ⟨d, hd, hcase⟩ := ih (by simpa [marks, hsuper, hthis, Owned] using h)
          refine ⟨d + 1, by simpa [depth, List.findIdx?_cons, hsuper] using hd, ?_⟩
          rcases hcase with ⟨k, scope, rfl, hscope, hreceiver⟩ | hnone
          · exact Or.inl ⟨k + 1, scope, rfl, hscope, hreceiver⟩
          · right
            intro scope hscope
            rcases List.mem_cons.mp hscope with rfl | hscope
            · exact hthis
            · exact hnone scope hscope
        · have hhead : (marks outer).head? = some (true, false) := by
            simpa [marks, hsuper, hthis, Owned] using h
          cases outer with
          | nil => cases hhead
          | cons next rest =>
              have hnext : next.contains superName = true := by
                simp only [marks, List.map_cons, List.head?_cons, Option.some.injEq,
                  Prod.mk.injEq] at hhead
                exact hhead.1
              exact ⟨1, by simp [depth, List.findIdx?_cons, hsuper, hnext],
                Or.inl ⟨0, inner, rfl, rfl, hthis⟩⟩
      · have hthis : inner.contains thisName = false := by simpa [marks, hsuper, Owned] using h
        refine ⟨0, by simp [depth, List.findIdx?_cons, hsuper], Or.inr ?_⟩
        intro scope hscope
        rcases List.mem_cons.mp hscope with rfl | hscope
        · exact hthis
        · cases hscope

/-! ## Names that are ready -/

/-- No name is pending. -/
def AllReady (scopes : Scopes) : Prop := ∀ scope ∈ scopes, ∀ name, scope.find? name ≠ some false

lemma AllReady.push {scope : Scope} (h : AllReady scopes)
    (hscope : ∀ name, scope.find? name ≠ some false) : AllReady (scope :: scopes) :=
  List.forall_mem_cons.mpr ⟨hscope, h⟩

lemma AllReady.enter (h : AllReady scopes) : AllReady scopes.enter :=
  h.push fun name => by simp

lemma AllReady.enterWith (h : AllReady scopes) (key : String) : AllReady (scopes.enterWith key) :=
  h.push fun name => by
    unfold Table.singleton Table.find? Table.lookup
    split <;> simp [Table.lookup]

lemma AllReady.bind (h : AllReady scopes) (name : String) :
    AllReady ((scopes.declare name).define name) := by
  cases scopes with
  | nil => exact h
  | cons inner outer =>
      have ⟨hinner, houter⟩ := List.forall_mem_cons.mp h
      refine AllReady.push houter ?_
      intro key
      rw [Table.find?_insert]
      split
      · simp
      · next hne =>
          split
          · exact hinner key
          · rw [Table.find?_insert, if_neg hne]
            exact hinner key

lemma AllReady.defineAll (h : AllReady scopes) (names : List Token) :
    AllReady (scopes.defineAll names) := by
  induction names generalizing scopes with
  | nil => exact h
  | cons p rest ih => exact ih (h.bind p.lexeme)

end Scopes

/-! ## Contexts -/

namespace Scope.Context

/-- What holds of the context of a statement. -/
structure Settled (c : Context) : Prop where
  ready : c.scopes.AllReady
  owned : c.enclosing = .derived → Owned c.scopes.marks

/-- What holds of the context of an expression. -/
structure Legal (c : Context) : Prop where
  pending : ∀ (i : Nat) (scope : Scope) (name : String), c.scopes[i]? = some scope →
    scope.find? name = some false → i = 0 ∧ name ≠ thisName ∧ name ≠ superName
  owned : c.enclosing = .derived → Owned c.scopes.marks

variable {c : Context} {U : List Use}

lemma settled_topLevel : topLevel.Settled where
  ready := by simp [topLevel, Scopes.AllReady]
  owned := by simp [topLevel]

namespace Settled

lemma legal (h : c.Settled) : c.Legal where
  pending _ scope name hscope hfind :=
    absurd hfind (h.ready scope (List.mem_of_getElem? hscope) name)
  owned := h.owned

lemma legal_declare (h : c.Settled) {name : Token} (hname : name.Declarable) :
    (c.declare name).Legal where
  pending := by
    intro i scope key hscope hfind
    unfold declare Scopes.declare at hscope
    have hready := h.ready
    cases hscopes : c.scopes with
    | nil => simp [hscopes] at hscope
    | cons inner outer =>
        rw [hscopes] at hready
        have ⟨hinner, houter⟩ := List.forall_mem_cons.mp hready
        simp only [hscopes] at hscope
        cases i with
        | succ i => exact absurd hfind (houter scope (List.mem_of_getElem? hscope) key)
        | zero =>
            simp only [List.getElem?_cons_zero, Option.some.injEq] at hscope
            refine ⟨rfl, ?_⟩
            subst hscope
            split at hfind
            · exact absurd hfind (hinner key)
            · rw [Table.find?_insert] at hfind
              split at hfind
              · next heq => exact heq ▸ hname
              · exact absurd hfind (hinner key)
  owned hd := by
    have := h.owned hd
    rwa [← Scopes.marks_declare hname] at this

lemma enter (h : c.Settled) : c.enter.Settled := ⟨h.ready.enter, h.owned⟩

lemma bind (h : c.Settled) {name : Token} (hname : name.Declarable) : (c.bind name).Settled where
  ready := h.ready.bind name.lexeme
  owned hd := by
    have := h.owned hd
    rwa [← Scopes.marks_declare hname, ← Scopes.marks_define hname] at this

lemma after (h : c.Settled) {s : Stmt Unit} (hs : s.Admitted U c) : (c.after s).Settled := by
  cases s with
  | var name value => exact h.bind hs.1
  | routine decl => exact h.bind hs.1
  | classDecl name superclass methods statics getters setters => exact h.bind hs.1
  | _ => exact h

lemma afterStart (h : c.Settled) {start : Option (ForStart Unit)}
    (hs : ForStart.Admitted U c start) : (c.afterStart start).Settled := by
  rcases start with _ | ⟨name, value⟩ | e
  · exact h
  · exact h.bind hs.1
  · exact h

lemma inRoutine (h : c.Settled) (body : BodyKind) {params : List Token}
    (hparams : ∀ p ∈ params, p.Declarable) : (c.inRoutine body params).Settled where
  ready := h.ready.enter.defineAll params
  owned hd := by
    have := h.owned hd
    unfold Context.inRoutine
    dsimp only
    rw [Scopes.marks_defineAll hparams]
    exact this

lemma inClass {β : Type} (h : c.Settled) (superclass : Option (Reference β)) :
    (c.inClass superclass).Settled := by
  cases superclass with
  | none => exact ⟨h.ready, fun hd => by cases hd⟩
  | some ref => exact ⟨h.ready.enterWith _, fun _ => rfl⟩

lemma withReceiver {β : Type} (h : c.Settled) (superclass : Option (Reference β)) :
    (c.inClass superclass).withReceiver.Settled := by
  cases superclass with
  | none => exact ⟨h.ready.enterWith _, fun hd => by cases hd⟩
  | some ref => exact ⟨(h.ready.enterWith _).enterWith _, fun _ => rfl⟩

end Settled

/-- A name that is bound in a scope is ready there, unless it is the one that is pending. -/
lemma Legal.ready_of_depth (h : c.Legal) {name : String} {d : Nat}
    (hdepth : c.scopes.depth name = some d) :
    ∃ scope, c.scopes[d]? = some scope
      ∧ (scope.find? name = some true
        ∨ d = 0 ∧ c.scopes.isPending name = true ∧ name ≠ thisName ∧ name ≠ superName) := by
  obtain ⟨hlt, hcontains, -⟩ := List.findIdx?_eq_some_iff_getElem.mp hdepth
  have hscope : c.scopes[d]? = some c.scopes[d] := List.getElem?_eq_getElem hlt
  obtain ⟨ready, hfind⟩ := Table.contains_iff.mp hcontains
  refine ⟨_, hscope, ?_⟩
  cases ready with
  | true => exact Or.inl hfind
  | false =>
      obtain ⟨rfl, hthis, hsuper⟩ := h.pending d _ name hscope hfind
      refine Or.inr ⟨rfl, ?_, hthis, hsuper⟩
      cases hscopes : c.scopes with
      | nil => simp [hscopes] at hlt
      | cons inner outer =>
          simp only [hscopes, List.getElem_cons_zero] at hfind
          simp [Scopes.isPending, hfind]

end Scope.Context

end KScript

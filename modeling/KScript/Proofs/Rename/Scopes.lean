import KScript.Proofs.Alike.Values
import KScript.Proofs.Rename.Likeness
import KScript.Scope.Check
import KScript.Scope.Resolve

/-!
# Scopes under a renaming

The scopes around a place of a program and those around the same place of a renamed one have the same names
but for the exchanged ones.  As the new name is in no scope of the program, it captures nothing: a name and
what it was replaced by are found at the same depth, and one is pending or declared already if the other is.
-/

namespace KScript

open Scope

variable {L : Likeness} {marks : List Bool}

namespace Likeness

@[simp] lemma perm_perm (b : Bool) (name : String) : L.perm b (L.perm b name) = name := by
  cases b with
  | false => rfl
  | true => exact Equiv.swap_apply_self _ _ _

/-- Exchanging under two marks gives the name itself or the new name. -/
lemma perm_perm_eq_or (b marked : Bool) {name : String} (h : name ≠ L.second) :
    L.perm b (L.perm marked name) = name ∨ L.perm b (L.perm marked name) = L.second := by
  cases b with
  | false =>
      cases marked with
      | false => exact Or.inl rfl
      | true =>
          by_cases hfirst : name = L.first
          · exact Or.inr (by simp [hfirst, perm])
          · exact Or.inl (L.perm_of_ne hfirst h true)
  | true =>
      cases marked with
      | true => exact Or.inl (L.perm_perm true name)
      | false =>
          by_cases hfirst : name = L.first
          · exact Or.inr (by simp [hfirst, perm])
          · exact Or.inl (L.perm_of_ne hfirst h true)

end Likeness

/-! ## Scopes -/

/-- The scopes have the same names but for the exchanged ones, and the new name is in none of the first. -/
inductive Scopes.Like (L : Likeness) : List Bool → Scopes → Scopes → Prop where
  | nil : Like L [] [] []
  | cons {b : Bool} {marks : List Bool} {inner inner' : Scope} {outer outer' : Scopes}
      (head : inner.Like L b (· = ·) inner') (fresh : inner.contains L.second = false)
      (tail : Like L marks outer outer') : Like L (b :: marks) (inner :: outer) (inner' :: outer')

/-- What a name of the second scope is bound to. -/
lemma Table.Like.find?_eq {α : Type} {b : Bool} {t t' : Table α} (h : t.Like L b (· = ·) t')
    (name : String) : t'.find? name = t.find? (L.perm b name) := by
  have hfind := h.find? (L.perm b name)
  rw [L.perm_perm] at hfind
  generalize t.find? (L.perm b name) = found at hfind ⊢
  generalize t'.find? name = found' at hfind ⊢
  cases hfind with
  | none => rfl
  | some heq => rw [heq]

/-- A name that is not in a scope is not in the other one after it was replaced, nor before. -/
lemma Table.Like.find?_perm_eq_none {α : Type} {b : Bool} {t t' : Table α}
    (h : t.Like L b (· = ·) t') (hfresh : t.contains L.second = false) {name : String}
    (hne : name ≠ L.second) (hnone : t.contains name = false) (marked : Bool) :
    t'.find? (L.perm marked name) = none := by
  rw [h.find?_eq]
  rcases L.perm_perm_eq_or b marked hne with heq | heq
  · rw [heq]
    simpa [Table.contains] using hnone
  · rw [heq]
    simpa [Table.contains] using hfresh

namespace Scopes

variable {scopes scopes' : Scopes} {name : String}

lemma depth_cons (inner : Scope) (outer : Scopes) (name : String) :
    depth (inner :: outer) name
      = if inner.contains name then some 0 else (depth outer name).map (· + 1) :=
  List.findIdx?_cons

lemma mark_succ (b : Bool) (marks : List Bool) (d : Depth) :
    Likeness.mark (b :: marks) (d.map (· + 1)) = Likeness.mark marks d := by
  cases d <;> rfl

/-- **No capture.**  A name and what it was replaced by are found at one depth. -/
lemma Like.depth_eq (h : Like L marks scopes scopes') (hne : name ≠ L.second) :
    depth scopes' (L.perm (Likeness.mark marks (depth scopes name)) name) = depth scopes name := by
  induction h with
  | nil => rfl
  | @cons b marks inner inner' outer outer' head fresh tail ih =>
      rw [depth_cons, depth_cons]
      cases hinner : inner.contains name with
      | true =>
          show (if inner'.contains (L.perm b name) then _ else _) = _
          rw [head.contains, hinner]
          rfl
      | false =>
          simp only [if_false, Bool.false_eq_true, mark_succ, ih]
          have hnone := head.find?_perm_eq_none fresh hne hinner
            (Likeness.mark marks (depth outer name))
          rw [Table.contains, hnone]
          rfl

/-- A name is pending if what it was replaced by is. -/
lemma Like.isPending_eq (h : Like L marks scopes scopes') (hne : name ≠ L.second) :
    isPending scopes' (L.perm (Likeness.mark marks (depth scopes name)) name)
      = isPending scopes name := by
  cases h with
  | nil => rfl
  | @cons b marks inner inner' outer outer' head fresh tail =>
      have hfind : inner'.find? (L.perm (Likeness.mark (b :: marks) (depth (inner :: outer) name)) name)
          = inner.find? name := by
        rw [depth_cons]
        cases hinner : inner.contains name with
        | true =>
            show inner'.find? (L.perm b name) = _
            rw [head.find?_eq, L.perm_perm]
        | false =>
            rw [head.find?_perm_eq_none fresh hne hinner]
            exact (Option.isSome_eq_false_iff.mp hinner |> Option.isNone_iff_eq_none.mp).symm
      show decide (inner'.find? _ = some false) = decide (inner.find? name = some false)
      rw [hfind]

lemma Like.declares_eq (h : Like L marks scopes scopes') (name : String) :
    declares scopes' (L.perm (marks.headD false) name) = declares scopes name := by
  cases h with
  | nil => rfl
  | cons head fresh tail => exact head.contains name

/-! ### Opening scopes and declaring names -/

lemma Like.enter (h : Like L marks scopes scopes') (b : Bool) :
    Like L (b :: marks) (enter scopes) (enter scopes') :=
  .cons Table.Like.empty rfl h

lemma Like.enterWith (h : Like L marks scopes scopes') {name : String} (hne : name ≠ L.second) :
    Like L (false :: marks) (enterWith scopes name) (enterWith scopes' name) :=
  .cons (Table.Like.singleton rfl rfl) (by simp [Table.contains, Table.singleton, Table.find?,
    Table.lookup, hne]) h

lemma Like.declare (h : Like L marks scopes scopes') (hne : name ≠ L.second) :
    Like L marks (declare scopes name) (declare scopes' (L.perm (marks.headD false) name)) := by
  cases h with
  | nil => exact .nil
  | @cons b marks inner inner' outer outer' head fresh tail =>
      have hcontains : inner'.contains (L.perm b name) = inner.contains name := head.contains name
      show Like L (b :: marks) (Scopes.declare (inner :: outer) name)
        (Scopes.declare (inner' :: outer') (L.perm b name))
      cases hinner : inner.contains name with
      | true =>
          simp only [Scopes.declare, hcontains, hinner, if_true]
          exact .cons head fresh tail
      | false =>
          simp only [Scopes.declare, hcontains, hinner, Bool.false_eq_true, if_false]
          refine .cons (head.insert name rfl) ?_ tail
          rw [Table.contains_insert, fresh]
          simp [hne]

lemma Like.define (h : Like L marks scopes scopes') (hne : name ≠ L.second) :
    Like L marks (define scopes name) (define scopes' (L.perm (marks.headD false) name)) := by
  cases h with
  | nil => exact .nil
  | cons head fresh tail =>
      refine .cons (head.insert name rfl) ?_ tail
      rw [Table.contains_insert, fresh]
      simp [hne]

end Scopes

/-! ## Contexts -/

/-- The contexts have scopes that are alike, and are of one kind. -/
structure Scope.Context.Like (L : Likeness) (marks : List Bool) (c c' : Context) : Prop where
  scopes : c.scopes.Like L marks c'.scopes
  body : c'.body = c.body
  enclosing : c'.enclosing = c.enclosing

namespace Scope.Context.Like

variable {c c' : Context}

lemma topLevel : Context.Like L [] topLevel topLevel := ⟨.nil, rfl, rfl⟩

lemma enter (h : c.Like L marks c') (b : Bool) : c.enter.Like L (b :: marks) c'.enter :=
  ⟨h.scopes.enter b, h.body, h.enclosing⟩

lemma declare (h : c.Like L marks c') {name name' : Token} (hne : name.lexeme ≠ L.second)
    (hname : name'.lexeme = L.perm (marks.headD false) name.lexeme) :
    (c.declare name).Like L marks (c'.declare name') := by
  refine ⟨?_, h.body, h.enclosing⟩
  show (c.scopes.declare name.lexeme).Like L marks (c'.scopes.declare name'.lexeme)
  rw [hname]
  exact h.scopes.declare hne

lemma bind (h : c.Like L marks c') {name name' : Token} (hne : name.lexeme ≠ L.second)
    (hname : name'.lexeme = L.perm (marks.headD false) name.lexeme) :
    (c.bind name).Like L marks (c'.bind name') := by
  have hdeclared := h.declare hne hname
  refine ⟨?_, h.body, h.enclosing⟩
  show ((c.declare name).scopes.define name.lexeme).Like L marks
    ((c'.declare name').scopes.define name'.lexeme)
  rw [hname]
  exact hdeclared.scopes.define hne

lemma inRoutine (h : c.Like L marks c') (kind : BodyKind) (b : Bool) {params : List Token}
    (hne : L.second ∉ params.map (·.lexeme)) :
    (c.inRoutine kind params).Like L (b :: marks)
      (c'.inRoutine kind (params.map (Token.renamed L.first L.second b))) := by
  refine ⟨?_, rfl, h.enclosing⟩
  have hfold : ∀ (params : List Token) {scopes scopes' : Scopes},
      L.second ∉ params.map (·.lexeme) → scopes.Like L (b :: marks) scopes' →
      (scopes.defineAll params).Like L (b :: marks)
        (scopes'.defineAll (params.map (Token.renamed L.first L.second b))) := by
    intro params
    induction params with
    | nil => exact fun _ hscopes => hscopes
    | cons p rest ih =>
        intro scopes scopes' hnames hscopes
        simp only [List.map_cons, List.mem_cons, not_or] at hnames
        have hp : p.lexeme ≠ L.second := Ne.symm hnames.1
        have hlexeme : (p.renamed L.first L.second b).lexeme = L.perm b p.lexeme := by
          rw [Token.renamed_eq hp]
          rfl
        refine ih hnames.2 ?_
        show ((scopes.declare p.lexeme).define p.lexeme).Like L (b :: marks)
          ((scopes'.declare (p.renamed L.first L.second b).lexeme).define _)
        rw [hlexeme]
        exact (hscopes.declare hp).define hp
  exact hfold params hne (h.scopes.enter b)

lemma withReceiver (h : c.Like L marks c') : c.withReceiver.Like L (false :: marks) c'.withReceiver :=
  ⟨h.scopes.enterWith (L.declarable L.second (by simp)).1.symm, h.body, h.enclosing⟩

lemma inClass (h : c.Like L marks c') {named named' : Option (Reference Unit)}
    {resolved : Option (Reference Depth)} (hnamed : named'.isSome = named.isSome)
    (hresolved : resolved.isSome = named.isSome) :
    (c.inClass named).Like L (Likeness.inClass marks resolved) (c'.inClass named') := by
  cases named with
  | none =>
      obtain rfl : named' = none := by simpa using hnamed
      obtain rfl : resolved = none := by simpa using hresolved
      exact ⟨h.scopes, h.body, rfl⟩
  | some ref =>
      obtain ⟨ref', rfl⟩ := Option.isSome_iff_exists.mp hnamed
      obtain ⟨depths, rfl⟩ := Option.isSome_iff_exists.mp hresolved
      exact ⟨h.scopes.enterWith (L.declarable L.second (by simp)).2.symm, h.body, rfl⟩

lemma hasReceiver_eq (h : c.Like L marks c') : c'.hasReceiver = c.hasReceiver := by
  unfold Context.hasReceiver
  obtain ⟨hscopes, -, -⟩ := h
  generalize c.scopes = scopes at hscopes ⊢
  generalize c'.scopes = scopes' at hscopes ⊢
  induction hscopes with
  | nil => rfl
  | @cons b _ inner inner' _ _ head _ _ ih =>
      have hthis : inner'.contains thisName = inner.contains thisName := by
        rw [← head.contains, L.perm_this]
      rw [List.any_cons, List.any_cons, hthis, ih]

end Scope.Context.Like

end KScript

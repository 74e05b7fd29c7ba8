import KScript.Proofs.Alike.Trees
import KScript.Proofs.Eval.Heap
import KScript.Proofs.Eval.Outline

/-!
# Values that are alike

Each frame of a run has a mark, given by its address in a list of marks that only grows at its end: in a
marked frame the two names of the `Likeness` are exchanged.  Closures are alike if their bodies are, under
marks that agree with those of the frames of their environment.  So values that are alike stay so when new
frames come in (`mono`), and they have one outline.
-/

namespace KScript

variable {L : Likeness} {W W' : List Bool}

/-! ## Tables -/

section Tables

variable {α : Type} {R S : α → α → Prop} {marked : Bool} {t t' : Table α} {v v' : α}

/-- The tables bind names that stand for each other to related values, in the same order. -/
def Table.Like (L : Likeness) (marked : Bool) (R : α → α → Prop) (t t' : Table α) : Prop :=
  List.Forall₂ (fun e e' => e'.1 = L.perm marked e.1 ∧ R e.2 e'.2) t.entries t'.entries

namespace Table.Like

lemma imp (h : t.Like L marked R t') (himp : ∀ v v', R v v' → S v v') : t.Like L marked S t' :=
  List.Forall₂.imp (fun _ _ he => ⟨he.1, himp _ _ he.2⟩) h

lemma empty : Table.empty.Like L marked R Table.empty := .nil

lemma singleton {name : String} (hname : L.perm marked name = name) (hv : R v v') :
    (Table.singleton name v).Like L marked R (Table.singleton name v') :=
  .cons ⟨hname.symm, hv⟩ .nil

lemma find? (h : t.Like L marked R t') (name : String) :
    Option.Rel R (t.find? name) (t'.find? (L.perm marked name)) := by
  obtain ⟨es⟩ := t
  obtain ⟨es'⟩ := t'
  change List.Forall₂ _ es es' at h
  unfold Table.find?
  induction h with
  | nil => exact .none
  | @cons e e' es es' he _ ih =>
      obtain ⟨key, v⟩ := e
      obtain ⟨key', v'⟩ := e'
      obtain ⟨rfl, hv⟩ := he
      simp only [Table.lookup, EmbeddingLike.apply_eq_iff_eq]
      split
      · exact .some hv
      · exact ih

lemma insert (h : t.Like L marked R t') (name : String) (hv : R v v') :
    (t.insert name v).Like L marked R (t'.insert (L.perm marked name) v') := by
  obtain ⟨es⟩ := t
  obtain ⟨es'⟩ := t'
  change List.Forall₂ _ es es' at h
  unfold Table.Like Table.insert
  induction h with
  | nil => exact .cons ⟨rfl, hv⟩ .nil
  | @cons e e' es es' he hes ih =>
      obtain ⟨key, old⟩ := e
      obtain ⟨key', old'⟩ := e'
      obtain ⟨rfl, hold⟩ := he
      simp only [Table.bind, EmbeddingLike.apply_eq_iff_eq]
      split
      · exact .cons ⟨rfl, hv⟩ hes
      · exact .cons ⟨rfl, hold⟩ ih

lemma contains (h : t.Like L marked R t') (name : String) :
    t'.contains (L.perm marked name) = t.contains name := by
  have hfind := h.find? name
  unfold Table.contains
  generalize t.find? name = found at hfind ⊢
  generalize t'.find? (L.perm marked name) = found' at hfind ⊢
  cases hfind with
  | none => rfl
  | some _ => rfl

lemma keys (h : t.Like L false R t') : t'.keys = t.keys := by
  obtain ⟨es⟩ := t
  obtain ⟨es'⟩ := t'
  change List.Forall₂ _ es es' at h
  unfold Table.keys
  induction h with
  | nil => rfl
  | cons he _ ih => rw [List.map_cons, List.map_cons, ih, he.1, L.perm_false]

lemma ofList {es es' : List (String × α)}
    (h : List.Forall₂ (fun e e' => e'.1 = L.perm marked e.1 ∧ R e.2 e'.2) es es') :
    (Table.ofList es).Like L marked R (Table.ofList es') := by
  have hfold : ∀ {t t' : Table α}, t.Like L marked R t' → Table.Like L marked R
      (es.foldl (fun t entry => t.insert entry.1 entry.2) t)
      (es'.foldl (fun t entry => t.insert entry.1 entry.2) t') := by
    induction h with
    | nil => exact fun ht => ht
    | @cons e e' _ _ he _ ih =>
        intro t t' ht
        obtain ⟨key, v⟩ := e
        obtain ⟨key', v'⟩ := e'
        obtain ⟨rfl, hv⟩ := he
        exact ih (ht.insert key hv)
  exact hfold Table.Like.empty

/-- Parameters and arguments, one by one. -/
lemma ofList_zip {params params' : List Token}
    (hparams : List.Forall₂ (fun p p' => L.Same (L.token marked p) p') params params')
    {args args' : List α} (hargs : List.Forall₂ R args args') :
    (Table.ofList ((params.map (·.lexeme)).zip args)).Like L marked R
      (Table.ofList ((params'.map (·.lexeme)).zip args')) := by
  refine ofList ?_
  induction hparams generalizing args args' with
  | nil => exact .nil
  | cons hp _ ih =>
      cases hargs with
      | nil => exact .nil
      | cons hv hrest => exact .cons ⟨L.same_lexeme hp, hv⟩ (ih hrest)

end Table.Like

end Tables

/-! ## Environments and values -/

/-- The frames of the environment have the marks of the scopes they are made for; beyond these scopes there
is only the global frame, which is not marked. -/
def Env.Like (W : List Bool) (env : Env) (marks : List Bool) : Prop :=
  ∀ i address, env[i]? = some address → W[address]? = some (marks.getD i false)

/-- The closures are alike.  The marks `inner` are those of the scopes between the environment and the
parameters: a method has no frame yet for its receiver. -/
structure Closure.Like (L : Likeness) (W inner : List Bool) (c c' : Closure) : Prop where
  ident : c'.ident = c.ident
  env : c'.env = c.env
  isConstructor : c'.isConstructor = c.isConstructor
  decl : ∃ marks, Env.Like W c.env marks ∧ c.decl.Like L (inner ++ marks) c'.decl

/-- The layers are alike. -/
structure Layer.Like (L : Likeness) (W : List Bool) (l l' : Layer) : Prop where
  ident : l'.ident = l.ident
  name : l'.name = l.name
  methods : l.methods.Like L false (Closure.Like L W [false]) l'.methods
  statics : l.statics.Like L false (Closure.Like L W []) l'.statics
  getters : l.getters.Like L false (Closure.Like L W [false]) l'.getters
  setters : l.setters.Like L false (Closure.Like L W [false]) l'.setters

/-- The classes are alike, layer by layer. -/
structure ClassValue.Like (L : Likeness) (W : List Bool) (c c' : ClassValue) : Prop where
  own : c.own.Like L W c'.own
  ancestors : List.Forall₂ (Layer.Like L W) c.ancestors c'.ancestors

/-- The objects are alike: one number, and classes that are alike. -/
structure Object.Like (L : Likeness) (W : List Bool) (o o' : Object) : Prop where
  ident : o'.ident = o.ident
  cls : o.cls.Like L W o'.cls

mutual

/-- The values are alike: what can be called through them is. -/
def Value.Like (L : Likeness) (W : List Bool) : Value → Value → Prop
  | .scalar literal, v => v = .scalar literal
  | .array ident items, v => ∃ items', v = .array ident items' ∧ Value.LikeAll L W items items'
  | .native n, v => v = .native n
  | .routine c, v => ∃ c', v = .routine c' ∧ c.Like L W [] c'
  | .classValue c, v => ∃ c', v = .classValue c' ∧ c.Like L W c'
  | .object o, v => ∃ o', v = .object o' ∧ o.Like L W o'

/-- The values are alike, one by one. -/
def Value.LikeAll (L : Likeness) (W : List Bool) : List Value → List Value → Prop
  | [], vs => vs = []
  | v :: rest, vs => ∃ v' rest', vs = v' :: rest' ∧ v.Like L W v' ∧ Value.LikeAll L W rest rest'

end

lemma Value.likeAll_iff {vs vs' : List Value} :
    Value.LikeAll L W vs vs' ↔ List.Forall₂ (Value.Like L W) vs vs' := by
  induction vs generalizing vs' with
  | nil => exact List.forall₂_nil_left_iff.symm
  | cons v rest ih =>
      rw [List.forall₂_cons_left_iff]
      constructor
      · rintro ⟨v', rest', rfl, hv, hrest⟩
        exact ⟨v', rest', hv, ih.mp hrest, rfl⟩
      · rintro ⟨v', rest', hv, hrest, rfl⟩
        exact ⟨v', rest', rfl, hv, ih.mpr hrest⟩

/-! ### New frames -/

section Mono

lemma Env.Like.mono {env : Env} {marks : List Bool} (h : Env.Like W env marks) (hle : W <+: W') :
    Env.Like W' env marks := by
  intro i address haddress
  obtain ⟨new, rfl⟩ := hle
  have hmark := h i address haddress
  rw [List.getElem?_append_left (List.getElem?_eq_some_iff.mp hmark).1, hmark]

lemma Env.Like.cons {env : Env} {marks : List Bool} {address : Address} {b : Bool}
    (h : Env.Like W env marks) (hmark : W[address]? = some b) :
    Env.Like W (address :: env) (b :: marks) := by
  intro i a ha
  cases i with
  | zero =>
      cases ha
      exact hmark
  | succ i => exact h i a ha

/-- The innermost frame has the mark of the innermost scope. -/
lemma Env.Like.head {env : Env} {marks : List Bool} {address : Address}
    (h : Env.Like W (address :: env) marks) : W[address]? = some (marks.headD false) := by
  rw [h 0 address rfl]
  cases marks <;> rfl

lemma Closure.Like.mono {inner : List Bool} {c c' : Closure} (h : c.Like L W inner c')
    (hle : W <+: W') : c.Like L W' inner c' where
  ident := h.ident
  env := h.env
  isConstructor := h.isConstructor
  decl := by
    obtain ⟨marks, henv, hdecl⟩ := h.decl
    exact ⟨marks, henv.mono hle, hdecl⟩

lemma Layer.Like.mono {l l' : Layer} (h : l.Like L W l') (hle : W <+: W') : l.Like L W' l' where
  ident := h.ident
  name := h.name
  methods := h.methods.imp fun _ _ hc => hc.mono hle
  statics := h.statics.imp fun _ _ hc => hc.mono hle
  getters := h.getters.imp fun _ _ hc => hc.mono hle
  setters := h.setters.imp fun _ _ hc => hc.mono hle

lemma ClassValue.Like.mono {c c' : ClassValue} (h : c.Like L W c') (hle : W <+: W') :
    c.Like L W' c' :=
  ⟨h.own.mono hle, h.ancestors.imp fun _ _ hl => hl.mono hle⟩

lemma Object.Like.mono {o o' : Object} (h : o.Like L W o') (hle : W <+: W') : o.Like L W' o' :=
  ⟨h.ident, h.cls.mono hle⟩

mutual

lemma Value.Like.mono {v v' : Value} (h : v.Like L W v') (hle : W <+: W') : v.Like L W' v' := by
  cases v with
  | scalar literal => exact h
  | array ident items =>
      obtain ⟨items', rfl, hitems⟩ := h
      exact ⟨items', rfl, Value.LikeAll.mono hitems hle⟩
  | native n => exact h
  | routine c | classValue c =>
      obtain ⟨c', rfl, hc⟩ := h
      exact ⟨c', rfl, hc.mono hle⟩
  | object o =>
      obtain ⟨o', rfl, ho⟩ := h
      exact ⟨o', rfl, ho.mono hle⟩

lemma Value.LikeAll.mono {vs vs' : List Value} (h : Value.LikeAll L W vs vs') (hle : W <+: W') :
    Value.LikeAll L W' vs vs' := by
  cases vs with
  | nil => exact h
  | cons v rest =>
      obtain ⟨v', rest', rfl, hv, hrest⟩ := h
      exact ⟨v', rest', rfl, Value.Like.mono hv hle, Value.LikeAll.mono hrest hle⟩

end

end Mono

/-! ### Looking up in a class -/

namespace ClassValue.Like

variable {c c' : ClassValue}

/-- What is found in a lineage is found in the layers that are alike. -/
lemma findSome? {group : Layer → Table Closure} {inner : List Bool} (h : c.Like L W c')
    (hgroup : ∀ l l' : Layer, l.Like L W l' →
      (group l).Like L false (Closure.Like L W inner) (group l')) (name : String) :
    Option.Rel (Closure.Like L W inner) (c.lineage.findSome? fun l => (group l).find? name)
      (c'.lineage.findSome? fun l => (group l).find? name) := by
  have hlineage : List.Forall₂ (Layer.Like L W) c.lineage c'.lineage := .cons h.own h.ancestors
  generalize c.lineage = layers at hlineage ⊢
  generalize c'.lineage = layers' at hlineage ⊢
  induction hlineage with
  | nil => exact .none
  | @cons l l' rest rest' hl _ ih =>
      have hfind := (hgroup l l' hl).find? name
      rw [L.perm_false] at hfind
      rw [List.findSome?_cons, List.findSome?_cons]
      generalize (group l).find? name = found at hfind ⊢
      generalize (group l').find? name = found' at hfind ⊢
      cases hfind with
      | none => exact ih
      | some hc => exact .some hc

lemma method? (h : c.Like L W c') (name : String) :
    Option.Rel (Closure.Like L W [false]) (c.method? name) (c'.method? name) :=
  h.findSome? (fun _ _ hl => hl.methods) name

lemma static? (h : c.Like L W c') (name : String) :
    Option.Rel (Closure.Like L W []) (c.static? name) (c'.static? name) :=
  h.findSome? (fun _ _ hl => hl.statics) name

lemma getter? (h : c.Like L W c') (name : String) :
    Option.Rel (Closure.Like L W [false]) (c.getter? name) (c'.getter? name) :=
  h.findSome? (fun _ _ hl => hl.getters) name

lemma setter? (h : c.Like L W c') (name : String) :
    Option.Rel (Closure.Like L W [false]) (c.setter? name) (c'.setter? name) :=
  h.findSome? (fun _ _ hl => hl.setters) name

end ClassValue.Like

/-! ### Outlines -/

lemma Table.Like.map {α β : Type} {R : α → α → Prop} {t t' : Table α} {f : α → β}
    (h : t.Like L false R t') (hf : ∀ v v', R v v' → f v' = f v) : t'.map f = t.map f := by
  obtain ⟨es⟩ := t
  obtain ⟨es'⟩ := t'
  change List.Forall₂ _ es es' at h
  unfold Table.map
  congr 1
  induction h with
  | nil => rfl
  | cons he _ ih => rw [List.map_cons, List.map_cons, ih, he.1, hf _ _ he.2, L.perm_false]

lemma Routine.Like.outline {marks : List Bool} {r r' : Routine (Stmt Depth)}
    (h : r.Like L marks r') : r'.outline = r.outline := by
  obtain ⟨hname, b, hparams, -⟩ := h
  unfold Routine.outline
  simp only [List.map_const', L.same_lexeme hname, hparams.length_eq]

lemma Closure.Like.outline {inner : List Bool} {c c' : Closure} (h : c.Like L W inner c') :
    c'.outline = c.outline := by
  obtain ⟨marks, -, hdecl⟩ := h.decl
  simp only [Closure.outline, h.ident, hdecl.outline, h.env, h.isConstructor]

lemma Layer.Like.outline {l l' : Layer} (h : l.Like L W l') : l'.outline = l.outline := by
  simp only [Layer.outline, h.ident, h.name, h.methods.map fun _ _ hc => hc.outline,
    h.statics.map fun _ _ hc => hc.outline, h.getters.map fun _ _ hc => hc.outline,
    h.setters.map fun _ _ hc => hc.outline]

lemma ClassValue.Like.outline {c c' : ClassValue} (h : c.Like L W c') : c'.outline = c.outline := by
  have hancestors : c'.ancestors.map Layer.outline = c.ancestors.map Layer.outline := by
    have hlayers := h.ancestors
    generalize c.ancestors = layers at hlayers ⊢
    generalize c'.ancestors = layers' at hlayers ⊢
    induction hlayers with
    | nil => rfl
    | cons hl _ ih => rw [List.map_cons, List.map_cons, hl.outline, ih]
  simp only [ClassValue.outline, h.own.outline, hancestors]

namespace Value

mutual

/-- Values that are alike differ only in the code of routines. -/
lemma Like.outline {v v' : Value} (h : v.Like L W v') : v'.outline = v.outline := by
  cases v with
  | scalar literal =>
      obtain rfl : v' = .scalar literal := h
      rfl
  | array ident items =>
      obtain ⟨items', rfl, hitems⟩ := h
      simp only [Value.outline, LikeAll.outlineAll hitems]
  | native n =>
      obtain rfl : v' = .native n := h
      rfl
  | routine c | classValue c =>
      obtain ⟨c', rfl, hc⟩ := h
      simp only [Value.outline, hc.outline]
  | object o =>
      obtain ⟨o', rfl, ho⟩ := h
      simp only [Value.outline, ho.ident, ho.cls.outline]

lemma LikeAll.outlineAll {vs vs' : List Value} (h : LikeAll L W vs vs') :
    Value.outlineAll vs' = Value.outlineAll vs := by
  cases vs with
  | nil =>
      obtain rfl : vs' = [] := h
      rfl
  | cons v rest =>
      obtain ⟨v', rest', rfl, hv, hrest⟩ := h
      simp only [Value.outlineAll, Like.outline hv, LikeAll.outlineAll hrest]

end

variable {v v' : Value} {vs vs' : List Value}

lemma Like.display (h : v.Like L W v') : v'.display = v.display := by
  rw [← display_outline, h.outline, display_outline]

lemma Like.detailed (h : v.Like L W v') (fields : Nat → List String) :
    v'.detailed fields = v.detailed fields := by
  rw [← detailed_outline, h.outline, detailed_outline]

lemma LikeAll.detailedList (h : LikeAll L W vs vs') (fields : Nat → List String) :
    Value.detailedList fields vs' = Value.detailedList fields vs := by
  unfold Value.detailedList
  rw [← detailedAll_outlineAll, h.outlineAll, detailedAll_outlineAll]

lemma Like.result (h : v.Like L W v') (fields : Nat → List String) :
    v'.result fields = v.result fields := by
  rw [← result_outline, h.outline, result_outline]

lemma Like.isTruthy (h : v.Like L W v') : v'.isTruthy = v.isTruthy := by
  rw [← isTruthy_outline, h.outline, isTruthy_outline]

lemma LikeAll.length_eq (h : LikeAll L W vs vs') : vs'.length = vs.length :=
  (likeAll_iff.mp h).length_eq.symm

end Value

end KScript

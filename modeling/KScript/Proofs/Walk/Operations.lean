import KScript.Proofs.Walk.Rules

/-!
# Operations of the machine

What evaluation does to a machine by itself, before or after its parts are evaluated.  No such operation
begins or ends a call (`Run.Gentle`), and what it may miss is a global variable that the phrase at hand
names.  One of them adds a field: the write of a property in a class, which leaves its footprint
(`Object.store_follows`).
-/

namespace KScript

open Run (Agree Gentle)

open Walk (Follows)

variable {N : Code} {R : Nat → String → Prop} {env : Env}

/-! ## Variables -/

namespace Reference

variable {ref : Reference Depth}

lemma read_gentle (h : ∀ line name, ref.Lacks line name → R line name) :
    Gentle R (ref.read env) := by
  refine .get_bind fun m => ?_
  dsimp only
  split
  · exact .orCrash _
  · next hbound =>
      split
      · exact .pure _
      · exact .miss (h _ _ ⟨hbound, rfl, rfl⟩)

lemma write_gentle (h : ∀ line name, ref.Lacks line name → R line name) (v : Value) :
    Gentle R (ref.write env v) := by
  unfold write
  dsimp only
  split
  · split
    · exact .throw (by simp)
    · exact .modifyGet fun _ => .of_eq rfl rfl
  · next hbound =>
      refine .get_bind fun m => ?_
      split
      · exact .modifyGet fun _ => .of_eq rfl rfl
      · exact .miss (h _ _ ⟨hbound, rfl, rfl⟩)

lemma step_gentle (h : ∀ line name, ref.Lacks line name → R line name) (direction : Direction)
    (use : StepUse) : Gentle R (ref.step direction use env) := by
  refine .bind (read_gentle h) fun v => ?_
  split
  · exact .bind (write_gentle h _) fun _ => .pure _
  · exact .fail (by simp)

end Reference

lemma Closure.bind_gentle (c : Closure) (receiver : Object) : Gentle R (c.bind receiver) :=
  .bind (.newFrame _) fun _ => .bind .newIdent fun _ => .pure _

lemma Reference.inherited_gentle (ref : Reference Depth) (method : Token) :
    Gentle R (ref.inherited method env) := by
  refine .get_bind fun m => ?_
  dsimp only
  split
  · exact .throw (by simp)
  · refine .bind (.orCrash _) fun superclass => .bind (.orCrash _) fun receiver => ?_
    split
    · split
      · exact .bind (Closure.bind_gentle _ _) fun _ => .pure _
      · exact .fail (by simp)
    · exact .throw (by simp)

/-! ## Operators -/

lemma Run.Gentle.orFail {α : Type} {result : Except Cause α} (line : Nat)
    (h : ∀ name, result ≠ .error (.undefinedVariable name)) : Gentle R (Run.orFail line result) := by
  cases result with
  | ok a => exact .pure a
  | error cause => exact .fail fun name heq => h name (heq ▸ rfl)

namespace Operator

lemma unary_ne (op : Token) (a : Value) (name : String) :
    unary op a ≠ .error (.undefinedVariable name) := by
  unfold unary
  split <;> nofun

lemma binary_ne (op : Token) (a b : Value) (name : String) :
    binary op a b ≠ .error (.undefinedVariable name) := by
  unfold binary plus numeric
  grind

end Operator

/-! ## Calls -/

lemma invokeNative_gentle (n : Native) (args : List Value) (line : Nat) :
    Gentle R (Interp.invokeNative n args line) := by
  intro m
  have hgives := n.gives_apply args m.console
  have hstill : m.Still { m with console := (n.apply args m.console).2 } := .of_eq rfl rfl
  have hmodify (f : Machine → Except NativeError Value × Machine) :
      (modifyGet f : Run (Except NativeError Value)) m = .ok (f m).1 (f m).2 := rfl
  simp only [Interp.invokeNative, Bind.bind, EStateM.bind, hmodify]
  cases hresult : (n.apply args m.console).1 with
  | ok v => exact hstill
  | error e =>
      cases e with
      | crash c => exact ⟨hstill, nofun⟩
      | failure cause =>
          rw [hresult] at hgives
          have hcause : ∀ name, cause ≠ .undefinedVariable name := hgives
          refine ⟨hstill, fun line name heq => ?_⟩
          cases heq
          exact absurd rfl (hcause name)

namespace Closure

variable {c : Closure} {completion : Completion}

lemma result_gentle (c : Closure) (completion : Completion) : Gentle R (c.result completion) := by
  unfold result
  split
  · exact .get_bind fun m => .orCrash _
  · split <;> exact .pure _

lemma result_agree (h : completion.Carries N.Holds) :
    Agree N.Holds (c.result completion) (c.result completion) (Value.Carries N.Holds) := by
  unfold result
  split
  · exact .get_bind fun m hm => .orCrash fun v hv => Policy.fine_getAt hm (.carrying _) hv
  · split
    · exact .pure (h _ rfl)
    · exact .pure (by simp)

end Closure

namespace Callable

lemma begin_gentle (callable : Callable) (args : List Value) (line : Nat) :
    Gentle R (callable.begin args line) := by
  refine .bind (.note _) fun _ => .get_bind fun m => ?_
  split
  · exact .fail (by simp)
  · exact .pure _

lemma begin_agree (callable : Callable) (args : List Value) (line : Nat) :
    Agree N.Holds (callable.begin args line) (callable.begin args line) fun _ => True := by
  refine .bind (.note _) fun _ _ => .get_bind fun m _ => ?_
  split
  · exact .fail _ _
  · exact .pure trivial

end Callable

lemma Interp.listedCall_eq (i : Interp) (callable : Callable) (args : List Value) (line : Nat) :
    i.listedCall callable args line = (do
      callable.begin args line
      i.invokeCallable callable args line) := by
  simp only [listedCall, Callable.begin, bind_assoc]
  congr 1
  funext _
  congr 1
  funext m
  split <;> rfl

/-! ## Properties -/

/-- A name that is new comes last. -/
lemma Table.keys_insert {α : Type} (t : Table α) (name : String) (v : α) :
    (t.insert name v).keys = if t.contains name then t.keys else t.keys ++ [name] := by
  obtain ⟨entries⟩ := t
  simp only [keys, insert, contains, find?]
  induction entries with
  | nil => rfl
  | cons entry rest ih =>
      obtain ⟨key, old⟩ := entry
      by_cases hkey : key = name
      · simp [bind, lookup, hkey]
      · simp only [bind, lookup, hkey, if_false, List.map_cons, ih]
        split
        · next hsome => simp [hsome]
        · next hnone => simp [hnone]

/-- Writing a field leaves the names of all fields, or adds its own. -/
lemma Machine.fieldNames_putField (m : Machine) (o : Object) (name : String) (v : Value)
    (ident : Nat) :
    let n : Machine := { m with fields := m.fields.modify o.ident (·.insert name v) }
    n.fieldNames ident = m.fieldNames ident
      ∨ o.ident = ident ∧ (m.fieldsOf o.ident).contains name = false
        ∧ n.fieldNames ident = m.fieldNames ident ++ [name] := by
  simp only [fieldNames, fieldsOf, Array.getElem?_modify]
  by_cases hident : o.ident = ident
  · subst hident
    cases hfields : m.fields[o.ident]? with
    | none => simp
    | some table =>
        simp only [if_true, Option.map_some, Option.getD_some, Table.keys_insert]
        cases table.contains name <;> simp
  · simp [hident]

namespace Object

variable {o : Object}

lemma read_gentle (o : Object) (name : Token) : Gentle R (o.read name) := by
  refine .get_bind fun m => ?_
  split
  · exact .pure _
  · split
    · exact .bind (Closure.bind_gentle _ _) fun _ => .pure _
    · exact .fail (by simp)

/-- The field that a `.` writes has its footprint. -/
lemma store_follows {object value : Expr Depth} {name : Token} {inside : Bool} {v : Value}
    (hnode : N.Has (.expr (.set object name value inside))) (hv : v.Carries N.Holds) :
    Follows N R env (Walker.store (.set object name value inside) o name v inside)
      (o.write name v inside) fun _ => True := by
  intro m past hm
  have hwrite : o.write name v inside m
      = if inside || (m.fieldsOf o.ident).contains name.lexeme then
          .ok () { m with fields := m.fields.modify o.ident (·.insert name.lexeme v) }
        else .error (.failure name.line (.undefinedProperty name.lexeme)) m := by
    rw [write, Run.get_bind_apply]
    split <;> rfl
  simp only [Walker.store, Bind.bind, EStateM.bind, Walk.act]
  rw [hwrite]
  by_cases hwrites : (inside || (m.fieldsOf o.ident).contains name.lexeme) = true
  · have hwent : Scene.Went N ⟨env, m, past⟩ [.wrote (.set object name value inside) o]
        ⟨env, { m with fields := m.fields.modify o.ident (·.insert name.lexeme v) },
          .wrote (.set object name value inside) o :: past⟩ := by
      refine ⟨rfl, rfl, List.forall_mem_singleton.mpr hnode, fun ident => ?_⟩
      rcases m.fieldNames_putField o name.lexeme v ident with hsame | ⟨hident, hnew, hnames⟩
      · exact ⟨[], by rw [List.append_nil]; exact hsame, by simp⟩
      · -- only inside a class is a field written that was not there
        rw [hnew, Bool.or_false] at hwrites
        subst hwrites
        refine ⟨[name.lexeme], hnames, List.forall_mem_singleton.mpr ?_⟩
        exact ⟨_, List.mem_singleton_self _, hident, rfl⟩
    rw [if_pos hwrites]
    exact .ok hwent rfl (hm.put (.object o.ident) name.lexeme hv) trivial
  · rw [if_neg hwrites]
    exact .error (.still fun _ => rfl) rfl hm fun line name heq => by cases heq

end Object

/-! ## Classes -/

lemma classEnv_gentle (env : Env) (parent : Option ClassValue) : Gentle R (classEnv env parent) := by
  cases parent with
  | none => exact .pure _
  | some cls => exact .bind (.newFrame _) fun _ => .pure _

lemma closures_gentle (env : Env) (isConstructor : String → Bool)
    (decls : List (Routine (Stmt Depth))) (table : Table Closure) :
    Gentle R (closures env isConstructor decls table) := by
  induction decls generalizing table with
  | nil => exact .pure _
  | cons decl rest ih => exact .bind .newIdent fun _ => ih _

section

variable {name : Token} {methods statics getters setters : List (Routine (Stmt Depth))}

lemma layer_gentle : Gentle R (layer name methods statics getters setters env) :=
  .bind (closures_gentle env _ methods _) fun _ => .bind (closures_gentle env _ statics _) fun _ =>
    .bind (closures_gentle env _ getters _) fun _ => .bind (closures_gentle env _ setters _) fun _ =>
      .bind .newIdent fun _ => .pure _

lemma layer_agree (h : ∀ r ∈ methods ++ statics ++ getters ++ setters, N.Holds r) :
    Agree N.Holds (layer name methods statics getters setters env)
      (layer name methods statics getters setters env) fun own => ∀ c, own.Holds c → N.Holds c.decl := by
  simp only [List.forall_mem_append] at h
  obtain ⟨⟨⟨hmethods, hstatics⟩, hgetters⟩, hsetters⟩ := h
  have henv := Env.Within.carrying (K := N.Holds) env
  refine .bind (closures_obeys henv _ hmethods .empty) fun ms hms => ?_
  refine .bind (closures_obeys henv _ hstatics .empty) fun ss hss => ?_
  refine .bind (closures_obeys henv _ hgetters .empty) fun gs hgs => ?_
  refine .bind (closures_obeys henv _ hsetters .empty) fun ts hts => ?_
  exact .bind .newIdent fun ident _ => .pure (Layer.forall_holds hms hss hgs hts)

lemma bindClass_gentle (h : R name.line name.lexeme) (cls : ClassValue) :
    Gentle R (bindClass name cls env) := by
  refine .bind (.note _) fun _ => .get_bind fun m => ?_
  split
  · next frames hassign =>
      refine fun n => ?_
      exact .of_eq rfl rfl
  · exact .miss h

lemma bindClass_agree {cls : ClassValue} (h : cls.Carries N.Holds) :
    Agree N.Holds (bindClass name cls env) (bindClass name cls env) fun _ => True :=
  .bind (.note _) fun _ _ => Run.assign_obeys (.carrying env) name (Value.carries_classValue.mpr h)

/-- A class declaration in parts. -/
lemma Interp.declareClass_eq (i : Interp) (env : Env) (superclass : Option (Reference Depth)) :
    i.declareClass env name superclass methods statics getters setters = (do
      Run.define env name.lexeme .zilch
      let parent ← i.superclass env superclass
      let inner ← classEnv env parent
      let own ← layer name methods statics getters setters inner
      bindClass name ⟨own, (parent.map (·.lineage)).getD []⟩ env) := by
  simp only [declareClass, layer, bindClass, bind_assoc, pure_bind]

end

/-! ## Statements -/

lemma exitWith_gentle (line : Nat) (v : Value) : Gentle R (Interp.exitWith line v) := by
  unfold Interp.exitWith
  split
  · split
    · exact .bind (.note _) fun _ => .throw (by simp)
    · exact .fail (by simp)
  · exact .fail (by simp)

lemma bindRoutine_gentle (decl : Routine (Stmt Depth)) : Gentle R (bindRoutine decl env) :=
  .bind .newIdent fun _ => .define env _ _

lemma bindRoutine_agree {decl : Routine (Stmt Depth)} (h : N.Holds decl) :
    Agree N.Holds (bindRoutine decl env) (bindRoutine decl env) fun _ => True :=
  .bind .newIdent fun _ _ => .define (.carrying env) _ (Value.carries_routine.mpr h)

end KScript

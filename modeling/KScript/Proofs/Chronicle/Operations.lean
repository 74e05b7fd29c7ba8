import KScript.Proofs.Chronicle.Rules

/-!
# Operations of the machine, with their entries

What evaluation does to a machine by itself, before or after its parts are evaluated: it reads and binds names,
it binds methods to their receivers, and it makes the routines of a class.  Keeping the chronicle follows each
of these operations, and the entries that it makes are told.
-/

namespace KScript

open Chronicle

namespace Chronicle.Follows

variable {α : Type} {s : Annals} {x : Chronicle α} {y : Run α} {Q : α → Annals → Prop}

/-- The run looks at the machine. -/
lemma getting {g : Machine → Run α} (h : Follows s x (g s.machine) Q) : Follows s x (get >>= g) Q := h

/-- The chronicle looks at the state. -/
lemma looking {f : Annals → Chronicle α} (h : Follows s (f s) y Q) : Follows s (get >>= f) y Q := h

end Chronicle.Follows

/-- A value that is returned was returned by the latest statement. -/
def Completion.Told (past : List Entry) (completion : Completion) : Prop :=
  ∀ v, completion = .returned v → ∃ part, Last past (.ran part (.returned v))

namespace Chronicle

variable {s : Annals} {env : Env} {v : Value}

/-! ## Names -/

lemma define_follows (hs : s.Sound) (henv : s.Sees env) (name : String) (hv : v.Stems s.past) :
    Follows s (define env name v) (Run.define env name v) fun _ t =>
      ∃ address, t.past = .put (.frame address) name v :: s.past := by
  cases env with
  | nil => exact absurd rfl henv.1
  | cons address outer =>
      exact (Follows.put hs (henv.2 address List.mem_cons_self) name hv).imp fun _ _ _ _ hpast =>
        ⟨address, hpast⟩

lemma assign_follows (hs : s.Sound) (henv : Env.Within s.machine.Has env) (name : Token)
    (hv : v.Stems s.past) :
    Follows s (assign env name v) (Run.assign env name v) fun _ t =>
      ∃ address, t.past = .put (.frame address) name.lexeme v :: s.past := by
  induction env with
  | nil => exact .fail hs _ _
  | cons address outer ih =>
      obtain ⟨haddress, houter⟩ := List.forall_mem_cons.mp henv
      refine .getting (.looking ?_)
      by_cases hcontains : (s.machine.frames.frame address).contains name.lexeme = true
      · simp only [Frames.assign?, hcontains, if_true]
        exact (Follows.put hs haddress name.lexeme hv).imp fun _ _ _ _ hpast => ⟨address, hpast⟩
      · simp only [Frames.assign?, hcontains]
        exact ih houter

lemma getAt_follows (hs : s.Sound) (env : Env) (depth : Nat) (name : String) :
    Follows s (getAt env depth name) (Run.orCrash (s.machine.frames.getAt env depth name)) fun v t =>
      ∃ cell, t = s.add (.got cell name v) := by
  unfold getAt Frames.getAt
  cases env[depth]? with
  | none => exact .throw hs _
  | some address =>
      refine .find? hs (fun hnone => ?_) fun v hsome hadd => ?_
      · simp only [show (s.machine.frames.frame address).find? name = none from hnone]
        exact .throw hs _
      · have hfind : (s.machine.frames.frame address).find? name = some v := hsome
        simp only [hfind]
        exact .pure hadd ⟨_, rfl⟩

/-! ## Variables -/

lemma readRef_follows (hs : s.Sound) (ref : Reference Depth) (env : Env) :
    Follows s (readRef ref env) (ref.read env) fun v t =>
      ∃ cell, Last t.past (.got cell ref.name.lexeme v) := by
  unfold readRef
  refine .getting ?_
  dsimp only
  cases ref.bound with
  | some depth =>
      refine (getAt_follows hs env depth ref.name.lexeme).imp ?_
      rintro v _ _ _ ⟨cell, rfl⟩
      exact ⟨cell, last_cons.mpr rfl⟩
  | none =>
      refine .find? hs (fun hnone => ?_) fun v hsome hadd => ?_
      · simp only [show (s.machine.frames.frame Machine.globalAddress).find? ref.name.lexeme = none
          from hnone]
        exact .fail hs _ _
      · have hfind : (s.machine.frames.frame Machine.globalAddress).find? ref.name.lexeme = some v := hsome
        simp only [hfind]
        exact .pure hadd ⟨_, last_cons.mpr rfl⟩

lemma writeRef_follows (hs : s.Sound) (henv : s.Sees env) (ref : Reference Depth) (hv : v.Stems s.past) :
    Follows s (writeRef ref env v) (ref.write env v) fun _ t =>
      ∃ cell, t.past = .put cell ref.name.lexeme v :: s.past := by
  have hput {address : Address} (haddress : s.machine.Has (.frame address)) :
      Follows s (put (.frame address) ref.name.lexeme v)
        (modify fun m => m.put (.frame address) ref.name.lexeme v) fun _ t =>
          ∃ cell, t.past = .put cell ref.name.lexeme v :: s.past :=
    (Follows.put hs haddress ref.name.lexeme hv).imp fun _ _ _ _ hpast => ⟨_, hpast⟩
  unfold writeRef Reference.write
  dsimp only
  cases ref.bound with
  | some depth =>
      dsimp only
      cases haddress : env[depth]? with
      | none => exact .throw hs _
      | some address => exact hput (henv.2 address (List.mem_of_getElem? haddress))
  | none =>
      refine .getting (.looking ?_)
      split
      · exact hput hs.global
      · exact .fail hs _ _

lemma stepRef_follows (hs : s.Sound) (henv : s.Sees env) (ref : Reference Depth) (direction : Direction)
    (use : StepUse) :
    Follows s (stepRef ref direction use env) (ref.step direction use env) fun v _ => ∃ x, v = .number x := by
  refine .bind (readRef_follows hs ref env) fun v t hle ht _ => ?_
  cases v with
  | scalar literal =>
      cases literal with
      | number x =>
          exact .bind (writeRef_follows ht (henv.mono hle) ref (Value.stems_scalar _)) fun _ u _ hu _ =>
            .pure hu ⟨x, rfl⟩
      | _ => exact .fail ht _ _
  | _ => exact .fail ht _ _

/-! ## Methods and fields -/

lemma bindMethod_follows (hs : s.Sound) {c : Closure} (hc : (Value.routine c).Stems s.past) {o : Object}
    (ho : (Value.object o).Stems s.past) :
    Follows s (bindMethod c o) (c.bind o) fun b t =>
      b.decl = c.decl ∧ Last t.past (.made (.binding c o) (.routine b)) := by
  have hbindings : ∀ binding ∈ [(Scope.thisName, Value.object o)], binding.2.Stems s.past := by
    simpa using ho
  refine .bind (.newFrame hs hbindings) fun address t hle ht ⟨hpast, haddress⟩ => ?_
  have henv : Env.Within t.machine.Has (address :: c.env) :=
    .cons (fun a ha => hle.has _ ((hs.issued_of_stems hc).2 a ha)) haddress
  have hthis : Last t.past (.put (.frame address) Scope.thisName (.object o)) := by
    rw [hpast]
    exact last_cons.mpr rfl
  refine .bind (.event ht ⟨_, address, rfl, hthis⟩ ⟨rfl, henv⟩ fun _ hpart => hpart.elim) fun ident u _ hu hmade => ?_
  refine .pure hu ⟨rfl, ?_⟩
  rw [hmade]
  exact last_cons.mpr rfl

lemma readField_follows (hs : s.Sound) {o : Object} (ho : (Value.object o).Stems s.past) (name : Token)
    (hmethods : ∀ c, o.cls.method? name.lexeme = some c → (Value.routine c).Stems s.past) :
    Follows s (readField o name) (o.read name) fun v t =>
      (Value.object o).Yields t.past name.lexeme v := by
  unfold readField
  refine .getting (.find? hs (fun hnone => ?_) fun v hsome hadd => ?_)
  · simp only [show (s.machine.fieldsOf o.ident).find? name.lexeme = none from hnone]
    cases hmethod : o.cls.method? name.lexeme with
    | none => exact .fail hs _ _
    | some method =>
        refine .bind (bindMethod_follows hs (hmethods method hmethod) ho) fun b t _ ht hb => .pure ht ?_
        exact .inr (.inl ⟨method, hmethod, hb.2⟩)
  · simp only [show (s.machine.fieldsOf o.ident).find? name.lexeme = some v from hsome]
    exact .pure hadd (.inl (last_cons.mpr rfl))

lemma writeField_follows (hs : s.Sound) {o : Object} (ho : (Value.object o).Stems s.past) (name : Token)
    (hv : v.Stems s.past) (inside : Bool) :
    Follows s (writeField o name v inside) (o.write name v inside) fun _ t =>
      Last t.past (.put (.object o.ident) name.lexeme v) := by
  have hcell : s.machine.Has (.object o.ident) := hs.issued_of_stems ho
  refine .getting (.looking ?_)
  split
  · refine (Follows.put hs hcell name.lexeme hv).imp fun _ t _ _ hpast => ?_
    rw [hpast]
    exact last_cons.mpr rfl
  · exact .fail hs _ _

end Chronicle

/-! ## What a class contains -/

namespace ClassValue

variable {cls : ClassValue} {c : Closure} {name : String}

lemma contains_of_findSome? {group : Layer → Table Closure}
    (hgroup : ∀ l : Layer, group l ∈ [l.methods, l.statics, l.getters, l.setters])
    (h : cls.lineage.findSome? (fun l => (group l).find? name) = some c) :
    (Value.classValue cls).Contains (.routine c) := by
  obtain ⟨l, hl, hfound⟩ := List.exists_of_findSome?_eq_some h
  exact ⟨l, hl, c, ⟨group l, hgroup l, name, hfound⟩, rfl⟩

lemma contains_method (h : cls.method? name = some c) : (Value.classValue cls).Contains (.routine c) :=
  contains_of_findSome? (by simp) h

lemma contains_static (h : cls.static? name = some c) : (Value.classValue cls).Contains (.routine c) :=
  contains_of_findSome? (by simp) h

lemma contains_getter (h : cls.getter? name = some c) : (Value.classValue cls).Contains (.routine c) :=
  contains_of_findSome? (by simp) h

lemma contains_setter (h : cls.setter? name = some c) : (Value.classValue cls).Contains (.routine c) :=
  contains_of_findSome? (by simp) h

end ClassValue

namespace Chronicle

variable {s : Annals} {env : Env}

/-- The routines of the class of an object have their origin, as the object has. -/
lemma Lawful.stems_of_class {past : List Entry} (h : Lawful past) {o : Object}
    (ho : (Value.object o).Stems past) {c : Closure} (hc : (Value.classValue o.cls).Contains (.routine c)) :
    (Value.routine c).Stems past :=
  h.stems_of_contains (h.stems_of_contains ho rfl) hc

/-- What a property gives has its origin. -/
lemma Lawful.stems_of_yields {past : List Entry} {target v : Value} {name : String} (h : Lawful past)
    (htarget : target.Stems past) (hyields : target.Yields past name v) : v.Stems past := by
  cases target with
  | object o =>
      rcases hyields with hgot | ⟨method, _, hmade⟩ | ⟨getter, c, _, _, hleft⟩
      · exact h.stems_of_got hgot.mem
      · exact .inr ⟨_, hmade.mem⟩
      · exact h.stems_of_left hleft.mem
  | classValue cls =>
      obtain ⟨c, hstatic, rfl⟩ := hyields
      exact h.stems_of_contains htarget (ClassValue.contains_static hstatic)
  | _ => exact hyields.elim

lemma inherited_follows (hs : s.Sound) (ref : Reference Depth) (method : Token) (env : Env) :
    Follows s (inherited ref method env) (ref.inherited method env) fun v t =>
      ∃ (cls : ClassValue) (c : Closure) (o : Object), cls.method? method.lexeme = some c
        ∧ Last t.past (.made (.binding c o) v) := by
  unfold inherited
  refine .getting ?_
  dsimp only
  cases ref.bound with
  | none => exact .throw hs _
  | some depth =>
      refine .bind (getAt_follows hs env depth Scope.superName) ?_
      rintro superclass _ _ ht ⟨cell, rfl⟩
      refine .bind (getAt_follows ht env (depth - 1) Scope.thisName) ?_
      rintro receiver _ _ hu ⟨cell', rfl⟩
      have hsuper := hu.lawful.stems_of_got (List.mem_cons_of_mem _ List.mem_cons_self)
      have hthis := hu.lawful.stems_of_got List.mem_cons_self
      cases superclass with
      | classValue cls =>
          cases receiver with
          | object o =>
              dsimp only
              cases hmethod : cls.method? method.lexeme with
              | none => exact .fail hu _ _
              | some c =>
                  have hc := hu.lawful.stems_of_contains hsuper (ClassValue.contains_method hmethod)
                  refine .bind (bindMethod_follows hu hc hthis) fun b t _ ht hbound => .pure ht ?_
                  exact ⟨cls, c, o, hmethod, hbound.2⟩
          | _ => exact .throw hu _
      | _ => exact .throw hu _

/-! ## Classes -/

lemma classEnv_follows (hs : s.Sound) (henv : Env.Within s.machine.Has env) {parent : Option ClassValue}
    (hparent : ∀ cls ∈ parent, (Value.classValue cls).Stems s.past) :
    Follows s (Chronicle.classEnv env parent) (KScript.classEnv env parent) fun inner t =>
      Env.Within t.machine.Has inner := by
  cases parent with
  | none => exact .pure hs henv
  | some cls =>
      have hbindings : ∀ binding ∈ [(Scope.superName, Value.classValue cls)],
          binding.2.Stems s.past := by simpa using hparent cls rfl
      refine .bind (.newFrame hs hbindings) fun address t hle ht ⟨_, haddress⟩ => .pure ht ?_
      exact .cons (fun a ha => hle.has _ (henv a ha)) haddress

lemma closures_follows (hs : s.Sound) (henv : Env.Within s.machine.Has env)
    (isConstructor : String → Bool) (decls : List (Routine (Stmt Depth))) {table : Table Closure}
    (htable : table.All fun c => (Value.routine c).Stems s.past) :
    Follows s (Chronicle.closures env isConstructor decls table)
      (KScript.closures env isConstructor decls table) fun result t =>
        result.All fun c => (Value.routine c).Stems t.past := by
  induction decls generalizing s table with
  | nil => exact .pure hs htable
  | cons decl rest ih =>
      refine .bind (.event hs ⟨_, rfl, rfl⟩ ⟨rfl, henv⟩ fun _ hpart => hpart.elim) fun ident t hle ht hmade => ?_
      have htable' : table.All fun c => (Value.routine c).Stems t.past :=
        fun name c hfind => (htable name c hfind).mono hle.past
      refine ih ht (fun a ha => hle.has _ (henv a ha)) (htable'.insert _ (.inr ⟨.routine decl, ?_⟩))
      rw [hmade]
      exact List.mem_cons_self

/-! ## The end of a routine -/

lemma result_follows (hs : s.Sound) (c : Closure) {completion : Completion}
    (hcompletion : completion.Told s.past) :
    Follows s (result c completion) (c.result completion) fun v t => c.Leaves t.past v := by
  unfold result Closure.result Closure.Leaves
  cases c.isConstructor with
  | true =>
      refine .getting ((getAt_follows hs c.env 0 Scope.thisName).imp ?_)
      rintro v _ _ _ ⟨cell, rfl⟩
      exact ⟨cell, last_cons.mpr rfl⟩
  | false =>
      cases completion with
      | returned v => exact .pure hs (.inr (hcompletion v rfl))
      | _ => exact .pure hs (.inl rfl)

end Chronicle

end KScript

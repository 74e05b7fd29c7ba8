import KScript.Proofs.Alike.Routines

/-!
# Calls, properties and classes that are alike

Native routines see no more than outlines and write after what was written before.  What is looked up in
classes that are alike is alike, so calling values and reading and writing properties of objects go alike.
A class declaration makes classes that are alike: its name is bound in the innermost frame before it is
rebound there, so no exchanged name further out is ever found in its place.
-/

namespace KScript

open Scope

variable {L : Pairing} {W : List Bool} {m m' : Machine} {env : Env} {marks : List Bool} {i : Interp}

/-! ## Native routines -/

/-- The console after the same text was written before everything else. -/
def Console.after (before : String) (c : Console) : Console :=
  { c with output := before ++ c.output }

lemma Console.write_after (before text : String) (c : Console) :
    (c.after before).write text = (c.write text).after before := by
  simp [Console.write, Console.after, String.append_assoc]

lemma Native.readValue_after (before : String) (c : Console) :
    readValue (c.after before) = ((readValue c).1, (readValue c).2.after before) := by
  obtain ⟨output, input, clock⟩ := c
  cases input <;> rfl

lemma Native.applyInput_after (before : String) (c : Console) (args : List Value) :
    applyInput (c.after before) args = ((applyInput c args).1, (applyInput c args).2.after before) := by
  unfold applyInput
  split
  · exact readValue_after before c
  · rw [Console.write_after, readValue_after]
  · rfl
  · rfl

/-- A native routine reads and writes the same, whatever was written before. -/
lemma Native.apply_after (n : Native) (before : String) (c : Console) (args : List Value) :
    n.apply args (c.after before) = ((n.apply args c).1, (n.apply args c).2.after before) := by
  unfold apply
  split
  · rfl
  · exact applyInput_after before c _
  · rw [Console.write_after]
  · rfl
  · rfl
  · rfl
  · rfl
  · rfl

lemma Alike.invokeNative (hm : m.Like L W m') (n : Native) {args args' : List Value}
    (hargs : Value.LikeAll L W args args') {line line' : Nat} (hline : L.SameLine line line') :
    Alike L W m m' (Interp.invokeNative n args line) (Interp.invokeNative n args' line')
      fun W v v' => v.Like L W v' := by
  have happly : n.apply args' m'.console
      = ((n.apply args m.console).1, (n.apply args m.console).2.after L.written) := by
    have hconsole : m'.console = m.console.after L.written := hm.console
    rw [← n.apply_outline args', hargs.outlineAll, n.apply_outline, hconsole, n.apply_after]
  have hrun : Alike L W m m'
      (modifyGet fun m : Machine =>
        let applied := n.apply args m.console
        (applied.1, { m with console := applied.2 }))
      (modifyGet fun m : Machine =>
        let applied := n.apply args' m.console
        (applied.1, { m with console := applied.2 }))
      fun _ result result' => result' = result ∧ Native.Gives result := by
    have hresult : (n.apply args' m'.console).1 = (n.apply args m.console).1 := by rw [happly]
    have hnext : (n.apply args' m'.console).2 = (n.apply args m.console).2.after L.written := by
      rw [happly]
    exact Alike.ok rfl rfl List.prefix_rfl { hm with console := hnext } (Frames.Le.refl _)
      ⟨hresult, n.gives_apply args m.console⟩
  refine Alike.bind hrun ?_
  rintro W₁ m₁ m₁' result result' hw₁ hm₁ _ ⟨rfl, hgives⟩
  rcases result' with (cause | crash) | v
  · exact Alike.fail hm₁ hline cause
  · exact Alike.error rfl rfl hm₁ (.crash crash)
  · obtain ⟨literal, rfl⟩ := hgives
    exact Alike.pure hm₁ rfl

/-! ## Calls -/

/-- What is called is alike. -/
inductive Callable.Like (L : Likeness) (W : List Bool) : Callable → Callable → Prop where
  | native (n : Native) : Like L W (.native n) (.native n)
  | routine {c c' : Closure} (h : c.Like L W [] c') : Like L W (.routine c) (.routine c')
  | classValue {c c' : ClassValue} (h : c.Like L W c') : Like L W (.classValue c) (.classValue c')

lemma Value.Like.callable {v v' : Value} (h : v.Like L W v') :
    Option.Rel (Callable.Like L W) (Callable.ofValue? v) (Callable.ofValue? v') := by
  cases v with
  | scalar literal =>
      obtain rfl : v' = .scalar literal := h
      exact .none
  | native n =>
      obtain rfl : v' = .native n := h
      exact .some (.native n)
  | routine c =>
      obtain ⟨c', rfl, hc⟩ := h
      exact .some (.routine hc)
  | classValue c =>
      obtain ⟨c', rfl, hc⟩ := h
      exact .some (.classValue hc)
  | _ =>
      obtain ⟨_, rfl, -⟩ := h
      exact .none

lemma Closure.Like.arity {inner : List Bool} {c c' : Closure} (h : c.Like L W inner c') :
    c'.decl.params.length = c.decl.params.length := by
  obtain ⟨_, _, _, _, hparams, -⟩ := h.decl
  exact hparams.length_eq.symm

namespace Callable.Like

variable {callable callable' : Callable}

lemma mono {W' : List Bool} (h : callable.Like L W callable') (hle : W <+: W') :
    callable.Like L W' callable' := by
  cases h with
  | native n => exact .native n
  | routine hc => exact .routine (hc.mono hle)
  | classValue hc => exact .classValue (hc.mono hle)

lemma arity (h : callable.Like L W callable') : callable'.arity = callable.arity := by
  cases h with
  | native n => rfl
  | routine hc => exact congrArg some hc.arity
  | @classValue c c' hc =>
      have hfind : Option.Rel (Closure.Like L W [false]) c.constructor? c'.constructor? :=
        hc.method? constructorName
      unfold Callable.arity
      dsimp only
      generalize c.constructor? = found at hfind ⊢
      generalize c'.constructor? = found' at hfind ⊢
      cases hfind with
      | none => rfl
      | some hclosure => exact congrArg some hclosure.arity

lemma name (h : callable.Like L W callable') : callable'.name = callable.name := by
  cases h with
  | native n => rfl
  | routine hc =>
      obtain ⟨_, _, hname, -⟩ := hc.decl
      exact L.same_lexeme hname
  | classValue hc => exact hc.own.name

end Callable.Like

namespace Interp.Respects

lemma invokeCallable (h : i.Respects L) (hm : m.Like L W m') {callable callable' : Callable}
    (hcallable : callable.Like L W callable') {args args' : List Value}
    (hargs : Value.LikeAll L W args args') {line line' : Nat} (hline : L.SameLine line line') :
    Alike L W m m' (i.invokeCallable callable args line) (i.invokeCallable callable' args' line')
      fun W v v' => v.Like L W v' := by
  cases hcallable with
  | native n => exact Alike.invokeNative hm n hargs hline
  | routine hc => exact h.invoke hm hc hargs
  | classValue hc => exact h.construct hm hc hargs

lemma call (h : i.Respects L) (hm : m.Like L W m') {callee callee' : Value}
    (hcallee : callee.Like L W callee') {args args' : List Value}
    (hargs : Value.LikeAll L W args args') {line line' : Nat} (hline : L.SameLine line line') :
    Alike L W m m' (i.call callee args line) (i.call callee' args' line')
      fun W v v' => v.Like L W v' := by
  have hcallable := hcallee.callable
  unfold Interp.call
  generalize Callable.ofValue? callee = found at hcallable ⊢
  generalize Callable.ofValue? callee' = found' at hcallable ⊢
  cases hcallable with
  | none => exact Alike.fail hm hline _
  | @some callable callable' hcallable =>
      dsimp only
      rw [hcallable.arity, hargs.length_eq, hcallable.name]
      split
      · have hrecord : CallRecord.outline ⟨callable.name, args'⟩
            = CallRecord.outline ⟨callable.name, args⟩ :=
          congrArg (CallRecord.mk callable.name) hargs.outlineAll
        refine Alike.bind (Alike.pushCall hm hrecord) ?_
        intro W₁ m₁ m₁' _ _ hw₁ hm₁ _ _
        refine Alike.bind (Alike.note hm₁ (by rw [hm₁.fieldNames, hargs.detailedList])) ?_
        intro W₂ m₂ m₂' _ _ hw₂ hm₂ _ _
        have hw := hw₁.trans hw₂
        refine Alike.get_bind ?_
        have hcalls : m₂'.calls.length = m₂.calls.length := by
          simpa using congrArg List.length hm₂.calls
        rw [hcalls]
        split
        · exact Alike.bind (Q := fun _ _ _ => False) (Alike.fail hm₂ hline _)
            fun _ _ _ _ _ _ _ _ hfalse => hfalse.elim
        · refine Alike.bind (h.invokeCallable hm₂ (hcallable.mono hw) (hargs.mono hw) hline) ?_
          intro W₃ m₃ m₃' result result' hw₃ hm₃ _ hresult
          refine Alike.bind (Alike.popCall hm₃) ?_
          intro W₄ m₄ m₄' _ _ hw₄ hm₄ _ _
          refine Alike.bind (Alike.note hm₄ (by rw [hm₄.fieldNames, hresult.result])) ?_
          intro W₅ m₅ m₅' _ _ hw₅ hm₅ _ _
          exact Alike.pure hm₅ (hresult.mono (hw₄.trans hw₅))
      · exact Alike.fail hm hline _

end Interp.Respects

/-! ## Properties -/

section Properties

variable {o o' : Object} {name name' : Token}

lemma Object.read_alike (hm : m.Like L W m') (ho : o.Like L W o') (hname : L.Same name name') :
    Alike L W m m' (o.read name) (o'.read name') fun W v v' => v.Like L W v' := by
  refine Alike.get_bind ?_
  rw [ho.ident, L.same_lexeme hname]
  have hfield := (hm.fields o.ident).find? name.lexeme
  rw [L.perm_false] at hfield
  generalize (m.fieldsOf o.ident).find? name.lexeme = found at hfield ⊢
  generalize (m'.fieldsOf o.ident).find? name.lexeme = found' at hfield ⊢
  cases hfield with
  | some hv => exact Alike.pure hm hv
  | none =>
      have hmethod := ho.cls.method? name.lexeme
      dsimp only
      generalize o.cls.method? name.lexeme = method at hmethod ⊢
      generalize o'.cls.method? name.lexeme = method' at hmethod ⊢
      cases hmethod with
      | none => exact Alike.fail hm (L.sameLine hname) _
      | some hc =>
          refine Alike.bind (Closure.bind_alike hm hc ho) ?_
          intro W₁ m₁ m₁' bound bound' _ hm₁ _ hbound
          exact Alike.pure hm₁ ⟨bound', rfl, hbound⟩

lemma Object.write_alike (hm : m.Like L W m') (ho : o.Like L W o') (hname : L.Same name name')
    {v v' : Value} (hv : v.Like L W v') (inside : Bool) :
    Alike L W m m' (o.write name v inside) (o'.write name' v' inside) fun _ _ _ => True := by
  refine Alike.get_bind ?_
  have hcontains := (hm.fields o.ident).contains name.lexeme
  rw [L.perm_false] at hcontains
  rw [ho.ident, L.same_lexeme hname, hcontains]
  split
  · exact Alike.putField hm ho name.lexeme hv
  · exact Alike.fail hm (L.sameLine hname) _

namespace Interp.Respects

lemma readProperty (h : i.Respects L) (hm : m.Like L W m') (ho : o.Like L W o')
    (hname : L.Same name name') (inside : Bool) :
    Alike L W m m' (i.readProperty o name inside) (i.readProperty o' name' inside)
      fun W v v' => v.Like L W v' := by
  unfold Interp.readProperty
  split
  · exact Object.read_alike hm ho hname
  · have hgetter := ho.cls.getter? name.lexeme
    have hsetter := ho.cls.setter? name.lexeme
    rw [L.same_lexeme hname]
    generalize o.cls.getter? name.lexeme = getter at hgetter ⊢
    generalize o'.cls.getter? name.lexeme = getter' at hgetter ⊢
    generalize o.cls.setter? name.lexeme = setter at hsetter ⊢
    generalize o'.cls.setter? name.lexeme = setter' at hsetter ⊢
    cases hgetter with
    | some hc => exact h.invokeOn hm hc ho rfl
    | none =>
        cases hsetter with
        | some _ => exact Alike.fail hm (L.sameLine hname) _
        | none => exact Object.read_alike hm ho hname

lemma getProperty (h : i.Respects L) (hm : m.Like L W m') {target target' : Value}
    (htarget : target.Like L W target') (hname : L.Same name name') (inside : Bool) :
    Alike L W m m' (i.getProperty target name inside) (i.getProperty target' name' inside)
      fun W v v' => v.Like L W v' := by
  cases target with
  | object o =>
      obtain ⟨o', rfl, ho⟩ := htarget
      exact h.readProperty hm ho hname inside
  | classValue cls =>
      obtain ⟨cls', rfl, hcls⟩ := htarget
      have hstatic := hcls.static? name.lexeme
      unfold Interp.getProperty
      dsimp only
      rw [L.same_lexeme hname]
      generalize cls.static? name.lexeme = method at hstatic ⊢
      generalize cls'.static? name.lexeme = method' at hstatic ⊢
      cases hstatic with
      | none => exact Alike.fail hm (L.sameLine hname) _
      | some hc => exact Alike.pure hm ⟨_, rfl, hc⟩
  | scalar literal =>
      obtain rfl : target' = .scalar literal := htarget
      exact Alike.fail hm (L.sameLine hname) _
  | native n =>
      obtain rfl : target' = .native n := htarget
      exact Alike.fail hm (L.sameLine hname) _
  | _ =>
      obtain ⟨_, rfl, -⟩ := htarget
      exact Alike.fail hm (L.sameLine hname) _

lemma writeProperty (h : i.Respects L) (hm : m.Like L W m') (ho : o.Like L W o')
    (hname : L.Same name name') {v v' : Value} (hv : v.Like L W v') (inside : Bool) :
    Alike L W m m' (i.writeProperty o name v inside) (i.writeProperty o' name' v' inside)
      fun _ _ _ => True := by
  unfold Interp.writeProperty
  split
  · exact Object.write_alike hm ho hname hv inside
  · have hgetter := ho.cls.getter? name.lexeme
    have hsetter := ho.cls.setter? name.lexeme
    rw [L.same_lexeme hname]
    generalize o.cls.getter? name.lexeme = getter at hgetter ⊢
    generalize o'.cls.getter? name.lexeme = getter' at hgetter ⊢
    generalize o.cls.setter? name.lexeme = setter at hsetter ⊢
    generalize o'.cls.setter? name.lexeme = setter' at hsetter ⊢
    cases hsetter with
    | some hc =>
        refine Alike.bind (h.invokeOn hm hc ho ⟨v', [], rfl, hv, rfl⟩) ?_
        intro W₁ m₁ m₁' _ _ _ hm₁ _ _
        exact Alike.pure hm₁ trivial
    | none =>
        cases hgetter with
        | some _ => exact Alike.fail hm (L.sameLine hname) _
        | none => exact Object.write_alike hm ho hname hv inside

end Interp.Respects

lemma Reference.inherited_alike {ref ref' : Reference Depth} (hm : m.Like L W m')
    (henv : Env.Like W env marks) (h : ref.Like L marks ref') (hname : L.Same name name') :
    Alike L W m m' (ref.inherited name env) (ref'.inherited name' env)
      fun W v v' => v.Like L W v' := by
  refine Alike.get_bind ?_
  rw [h.bound_eq]
  cases ref.bound with
  | none => exact Alike.error rfl rfl hm (.crash _)
  | some depth =>
      refine Alike.bind (Alike.getAt hm List.prefix_rfl henv hm depth (L.perm_super _).symm) ?_
      intro W₁ m₁ m₁' superclass superclass' hw₁ hm₁ _ hsuperclass
      refine Alike.bind (Alike.getAt hm hw₁ henv hm₁ (depth - 1) (L.perm_this _).symm) ?_
      intro W₂ m₂ m₂' receiver receiver' hw₂ hm₂ _ hreceiver
      cases superclass with
      | classValue cls =>
          obtain ⟨cls', rfl, hcls⟩ := hsuperclass
          cases receiver with
          | object o =>
              obtain ⟨o', rfl, ho⟩ := hreceiver
              have hmethod := (hcls.mono hw₂).method? name.lexeme
              dsimp only
              rw [L.same_lexeme hname]
              generalize cls.method? name.lexeme = method at hmethod ⊢
              generalize cls'.method? name.lexeme = method' at hmethod ⊢
              cases hmethod with
              | none => exact Alike.fail hm₂ (L.sameLine hname) _
              | some hc =>
                  refine Alike.bind (Closure.bind_alike hm₂ hc ho) ?_
                  intro W₃ m₃ m₃' bound bound' _ hm₃ _ hbound
                  exact Alike.pure hm₃ ⟨bound', rfl, hbound⟩
          | scalar literal =>
              obtain rfl : receiver' = .scalar literal := hreceiver
              exact Alike.error rfl rfl hm₂ (.crash _)
          | native n =>
              obtain rfl : receiver' = .native n := hreceiver
              exact Alike.error rfl rfl hm₂ (.crash _)
          | _ =>
              obtain ⟨_, rfl, -⟩ := hreceiver
              exact Alike.error rfl rfl hm₂ (.crash _)
      | scalar literal =>
          obtain rfl : superclass' = .scalar literal := hsuperclass
          exact Alike.error rfl rfl hm₂ (.crash _)
      | native n =>
          obtain rfl : superclass' = .native n := hsuperclass
          exact Alike.error rfl rfl hm₂ (.crash _)
      | _ =>
          obtain ⟨_, rfl, -⟩ := hsuperclass
          exact Alike.error rfl rfl hm₂ (.crash _)

end Properties

/-! ## Class declarations -/

lemma Interp.Respects.superclass (h : i.Respects L) (hm : m.Like L W m')
    (henv : Env.Like W env marks) {named named' : Option (Reference Depth)}
    (hnamed : Reference.LikeOption L marks named named') :
    Alike L W m m' (i.superclass env named) (i.superclass env named')
      fun W parent parent' => Option.Rel (ClassValue.Like L W) parent parent'
        ∧ parent.isSome = named.isSome := by
  cases named with
  | none =>
      obtain rfl : named' = none := hnamed
      exact Alike.pure hm ⟨.none, rfl⟩
  | some ref =>
      obtain ⟨ref', rfl, href⟩ := hnamed
      refine Alike.bind (h.eval hm henv ⟨ref', rfl, href⟩) ?_
      intro W₁ m₁ m₁' v v' _ hm₁ _ hv
      cases v with
      | classValue cls =>
          obtain ⟨cls', rfl, hcls⟩ := hv
          exact Alike.pure hm₁ ⟨.some hcls, rfl⟩
      | scalar literal =>
          obtain rfl : v' = .scalar literal := hv
          exact Alike.fail hm₁ href.line _
      | native n =>
          obtain rfl : v' = .native n := hv
          exact Alike.fail hm₁ href.line _
      | _ =>
          obtain ⟨_, rfl, -⟩ := hv
          exact Alike.fail hm₁ href.line _

/-- The frame of a superclass is not marked. -/
lemma classEnv_alike (hm : m.Like L W m') (henv : Env.Like W env marks)
    {parent parent' : Option ClassValue} (hparent : Option.Rel (ClassValue.Like L W) parent parent')
    {named : Option (Reference Depth)} (hsome : parent.isSome = named.isSome) :
    Alike L W m m' (classEnv env parent) (classEnv env parent') fun W inner inner' =>
      inner' = inner ∧ Env.Like W inner (Likeness.inClass marks named) := by
  cases hparent with
  | none =>
      cases named with
      | none => exact Alike.pure hm ⟨rfl, henv⟩
      | some ref => cases hsome
  | @some cls cls' hcls =>
      cases named with
      | none => cases hsome
      | some ref =>
          have hbindings : (Table.singleton superName (Value.classValue cls)).Like L false
              (Value.Like L W) (Table.singleton superName (.classValue cls')) :=
            Table.Like.singleton rfl ⟨cls', rfl, hcls⟩
          refine Alike.bind (Alike.newFrame hm hbindings) ?_
          rintro W₁ m₁ m₁' address address' hw₁ hm₁ _ ⟨rfl, hmark⟩
          exact Alike.pure hm₁ ⟨rfl, (henv.mono hw₁).cons hmark⟩

lemma closures_alike (inner : List Bool) {isConstructor : String → Bool} :
    ∀ {decls decls' : List (Routine (Stmt Depth))} {table table' : Table Closure} {W : List Bool}
      {m m' : Machine}, m.Like L W m' → Env.Like W env marks →
    Stmt.LikeRoutines L (inner ++ marks) decls decls' →
    table.Like L false (Closure.Like L W inner) table' →
    Alike L W m m' (closures env isConstructor decls table) (closures env isConstructor decls' table')
      fun W t t' => t.Like L false (Closure.Like L W inner) t' := by
  intro decls
  induction decls with
  | nil =>
      intro decls' table table' W m m' hm _ hdecls htable
      obtain rfl : decls' = [] := hdecls
      exact Alike.pure hm htable
  | cons decl rest ih =>
      intro decls' table table' W m m' hm henv hdecls htable
      obtain ⟨b, name', params', body', rest', rfl, hname, hparams, hbody, hrest⟩ := hdecls
      refine Alike.bind (Alike.newIdent hm) ?_
      intro W₁ m₁ m₁' ident ident' hw₁ hm₁ _ hident
      have hlexeme : name'.lexeme = decl.name.lexeme := L.same_lexeme hname
      have hclosure : Closure.Like L W₁ inner ⟨ident, decl, env, isConstructor decl.name.lexeme⟩
          ⟨ident', ⟨name', params', body'⟩, env, isConstructor name'.lexeme⟩ :=
        ⟨hident, rfl, congrArg isConstructor hlexeme,
          marks, henv.mono hw₁, hname, b, hparams, hbody⟩
      refine ih hm₁ (henv.mono hw₁) hrest ?_
      have hinsert := (htable.imp fun _ _ hc => hc.mono hw₁).insert decl.name.lexeme hclosure
      rwa [L.perm_false, show table'.insert decl.name.lexeme = table'.insert name'.lexeme from
        congrArg table'.insert hlexeme.symm] at hinsert

/-- Rebinding a name that the innermost frame has. -/
lemma Alike.assign (hm : m.Like L W m') (henv : Env.Like W env marks) {name name' : Token}
    (hname : L.Same name name') (hkept : L.perm (marks.headD false) name.lexeme = name.lexeme)
    (hbound : ∀ address ∈ env.head?, (m.frames.frame address).contains name.lexeme = true)
    {v v' : Value} (hv : v.Like L W v') :
    Alike L W m m' (Run.assign env name v) (Run.assign env name' v') fun _ _ _ => True := by
  refine Alike.get_bind ?_
  rw [L.same_lexeme hname]
  cases env with
  | nil => exact Alike.fail hm (L.sameLine hname) _
  | cons address outer =>
      have hfirst := hbound address rfl
      have hcontains := (hm.frames address _ henv.head).contains name.lexeme
      rw [hkept, hfirst] at hcontains
      simp only [Frames.assign?, hfirst, hcontains, if_true]
      have hnext := hm.define henv.head name.lexeme hv
      rw [hkept] at hnext
      exact Alike.ok rfl rfl List.prefix_rfl hnext (Frames.Le.define _ _ _ _) trivial

lemma Interp.Respects.declareClass (h : i.Respects L) (hm : m.Like L W m')
    (henv : Env.Like W env marks) {name name' : Token} (hname : L.Same name name')
    (hkept : L.perm (marks.headD false) name.lexeme = name.lexeme)
    {named named' : Option (Reference Depth)} (hnamed : Reference.LikeOption L marks named named')
    {methods methods' statics statics' getters getters' setters setters' :
      List (Routine (Stmt Depth))}
    (hmethods : Stmt.LikeRoutines L (false :: Likeness.inClass marks named) methods methods')
    (hstatics : Stmt.LikeRoutines L (Likeness.inClass marks named) statics statics')
    (hgetters : Stmt.LikeRoutines L (false :: Likeness.inClass marks named) getters getters')
    (hsetters : Stmt.LikeRoutines L (false :: Likeness.inClass marks named) setters setters') :
    Alike L W m m' (i.declareClass env name named methods statics getters setters)
      (i.declareClass env name' named' methods' statics' getters' setters') fun _ _ _ => True := by
  have hlexeme := L.same_lexeme hname
  have hzilch : Value.zilch.Like L W .zilch := rfl
  refine Alike.define_bind hm henv (hlexeme.trans hkept.symm) hzilch ?_
  intro m₀ m₀' hm₀ hbound
  refine Alike.bind (h.superclass hm₀ henv hnamed) ?_
  rintro W₁ m₁ m₁' parent parent' hw₁ hm₁ hle₁ ⟨hparent, hsome⟩
  refine Alike.bind (classEnv_alike hm₁ (henv.mono hw₁) hparent hsome) ?_
  rintro W₂ m₂ m₂' inner inner' hw₂ hm₂ hle₂ ⟨rfl, hinner⟩
  refine Alike.bind (closures_alike [false] hm₂ hinner hmethods Table.Like.empty) ?_
  intro W₃ m₃ m₃' methods methods' hw₃ hm₃ hle₃ hmethods
  have hinner₃ := hinner.mono hw₃
  refine Alike.bind (closures_alike [] hm₃ hinner₃ hstatics Table.Like.empty) ?_
  intro W₄ m₄ m₄' statics statics' hw₄ hm₄ hle₄ hstatics
  have hinner₄ := hinner₃.mono hw₄
  refine Alike.bind (closures_alike [false] hm₄ hinner₄ hgetters Table.Like.empty) ?_
  intro W₅ m₅ m₅' getters getters' hw₅ hm₅ hle₅ hgetters
  have hinner₅ := hinner₄.mono hw₅
  refine Alike.bind (closures_alike [false] hm₅ hinner₅ hsetters Table.Like.empty) ?_
  intro W₆ m₆ m₆' setters setters' hw₆ hm₆ hle₆ hsetters
  refine Alike.bind (Alike.newIdent hm₆) ?_
  intro W₇ m₇ m₇' ident ident' hw₇ hm₇ hle₇ hident
  have hle := hle₁.trans (hle₂.trans (hle₃.trans (hle₄.trans (hle₅.trans (hle₆.trans hle₇)))))
  have hw₅₇ := hw₆.trans hw₇
  have hw₄₇ := hw₅.trans hw₅₇
  have hw₃₇ := hw₄.trans hw₄₇
  have hw₁₇ := hw₂.trans (hw₃.trans hw₃₇)
  have hown : Layer.Like L W₇ ⟨ident, name.lexeme, methods, statics, getters, setters⟩
      ⟨ident', name'.lexeme, methods', statics', getters', setters'⟩ :=
    { ident := hident
      name := hlexeme
      methods := hmethods.imp fun _ _ hc => hc.mono hw₃₇
      statics := hstatics.imp fun _ _ hc => hc.mono hw₄₇
      getters := hgetters.imp fun _ _ hc => hc.mono hw₅₇
      setters := hsetters.imp fun _ _ hc => hc.mono hw₇ }
  have hancestors : List.Forall₂ (Layer.Like L W₇) ((parent.map (·.lineage)).getD [])
      ((parent'.map (·.lineage)).getD []) := by
    cases hparent with
    | none => exact .nil
    | some hcls => exact .cons (hcls.own.mono hw₁₇) (hcls.ancestors.imp fun _ _ hl => hl.mono hw₁₇)
  have hcls : (Value.classValue ⟨_, (parent.map (·.lineage)).getD []⟩).Like L W₇
      (.classValue ⟨_, (parent'.map (·.lineage)).getD []⟩) := ⟨_, rfl, hown, hancestors⟩
  refine Alike.bind (Alike.note hm₇ (by rw [hm₇.fieldNames, hcls.detailed])) ?_
  intro W₈ m₈ m₈' _ _ hw₈ hm₈ hle₈ _
  have henv₈ := henv.mono ((hw₁.trans hw₁₇).trans hw₈)
  refine Alike.assign hm₈ henv₈ hname hkept ?_ (hcls.mono hw₈)
  intro address haddress
  exact (hle.trans hle₈).keeps address _ (hbound address haddress)

end KScript

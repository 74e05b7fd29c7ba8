import KScript.Proofs.Eval.Outline
import KScript.Proofs.Eval.Routines

/-!
# Calls, properties and classes under a watch

What is looked up in a class that fits is a routine that fits, so calling a value and reading or writing
a property of one keep two tied evaluators together.  A class declaration makes a class that fits: its
routines are closed over the frame of the superclass exactly where their scopes have one for it.
-/

namespace KScript

open Scope

variable {U : List Use} {C : Comparison U} {i j : Interp} {m : Machine} {env : Env} {c : Context}

/-! ## Looking up in a class -/

namespace ClassValue.Fits

variable {cls : ClassValue} {frames : Frames Value} {name : String} {closure : Closure}

/-- What is found in a lineage is found in one of its layers. -/
lemma of_findSome? {group : Layer → Table Closure} {P : Closure → Prop} (h : cls.Fits U frames)
    (hgroup : ∀ l : Layer, l.Fits U frames → ∀ c, (group l).find? name = some c → P c)
    (hfind : cls.lineage.findSome? (fun l => (group l).find? name) = some closure) : P closure := by
  obtain ⟨l, hl, hfound⟩ := List.exists_of_findSome?_eq_some hfind
  exact hgroup l (h l hl) closure hfound

lemma method (h : cls.Fits U frames) (hfind : cls.method? name = some closure) :
    closure.FitsMethod U frames :=
  h.of_findSome? (fun _ hl c hc => hl.methods name c hc) hfind

lemma static (h : cls.Fits U frames) (hfind : cls.static? name = some closure) :
    closure.Fits U frames :=
  h.of_findSome? (fun _ hl c hc => hl.statics name c hc) hfind

lemma getter (h : cls.Fits U frames) (hfind : cls.getter? name = some closure) :
    closure.FitsMethod U frames ∧ closure.decl.params.length = 0 :=
  h.of_findSome? (fun _ hl c hc => hl.getters name c hc) hfind

lemma setter (h : cls.Fits U frames) (hfind : cls.setter? name = some closure) :
    closure.FitsMethod U frames ∧ closure.decl.params.length = 1 :=
  h.of_findSome? (fun _ hl c hc => hl.setters name c hc) hfind

end ClassValue.Fits

/-! ## Calls -/

lemma Tie.invokeNative (hs : m.Sound U) (n : Native) (args : List Value) (line : Nat) :
    Tie C m (Interp.invokeNative n args line) (Interp.invokeNative n args line) fun v next =>
      v.Fits U next.frames := by
  have hgives := n.gives_apply args m.console
  have hconsole : Tie C m
      (modifyGet fun m : Machine =>
        let applied := n.apply args m.console
        (applied.1, { m with console := applied.2 }))
      (modifyGet fun m : Machine =>
        let applied := n.apply args m.console
        (applied.1, { m with console := applied.2 }))
      fun result _ => Native.Gives result :=
    Tie.ok rfl (hs.congr rfl rfl) (Frames.Le.refl _) hgives
  refine Tie.bind hconsole ?_
  intro result next hs' _ hresult
  rcases result with (cause | crash) | v
  · exact Tie.fail hs' line cause
  · rw [show crash = .roundedTooLarge from hresult]
    exact Tie.error rfl hs' C.rounding
  · obtain ⟨literal, rfl⟩ := hresult
    exact Tie.pure hs' (.scalar literal)

/-- What can be called through a callable fits. -/
def Callable.Fits (U : List Use) (frames : Frames Value) : Callable → Prop
  | .native _ => True
  | .routine closure => closure.Fits U frames
  | .classValue cls => cls.Fits U frames

lemma Callable.Fits.mono {callable : Callable} {frames next : Frames Value}
    (h : callable.Fits U frames) (hle : frames.Le next) : callable.Fits U next := by
  cases callable with
  | native n => trivial
  | routine closure => exact Closure.Fits.mono h hle
  | classValue cls => exact ClassValue.Fits.mono h hle

lemma Value.Fits.callable {v : Value} {frames : Frames Value} {callable : Callable}
    (h : v.Fits U frames) (hcallable : Callable.ofValue? v = some callable) :
    callable.Fits U frames := by
  cases h with
  | native n =>
      cases hcallable
      trivial
  | routine h | classValue h =>
      cases hcallable
      exact h
  | _ => cases hcallable

lemma Interp.takes_some {n count : Nat} (h : Interp.takes (some n) count = true) : count = n :=
  (beq_iff_eq.mp h).symm

namespace Tied

lemma construct (h : Tied C i j) (hs : m.Sound U) {cls : ClassValue} (hcls : cls.Fits U m.frames)
    {args : List Value} (hargs : ∀ v ∈ args, v.Fits U m.frames)
    (hcount : Interp.takes (Callable.classValue cls).arity args.length = true) :
    Tie C m (i.construct cls args) (j.construct cls args) fun v next => v.Fits U next.frames := by
  refine Tie.bind (Tie.newObject hs cls) ?_
  intro object next hs' hle hobject
  have hfits : object.cls.Fits U next.frames := hobject ▸ hcls.mono hle
  cases hfind : cls.constructor? with
  | none => exact Tie.pure hs' (.object hfits)
  | some closure =>
      have hcount' : args.length = closure.decl.params.length := by
        simp only [Callable.arity, hfind] at hcount
        exact Interp.takes_some hcount
      refine Tie.bind (h.invokeOn hs' ((hcls.mono hle).method hfind) hfits
        (fun v hv => (hargs v hv).mono hle) hcount') ?_
      intro _ last hs'' hle' _
      exact Tie.pure hs'' (.object (hfits.mono hle'))

lemma invokeCallable (h : Tied C i j) (hs : m.Sound U) {callable : Callable}
    (hcallable : callable.Fits U m.frames) {args : List Value}
    (hargs : ∀ v ∈ args, v.Fits U m.frames)
    (hcount : Interp.takes callable.arity args.length = true) (line : Nat) :
    Tie C m (i.invokeCallable callable args line) (j.invokeCallable callable args line) fun v next =>
      v.Fits U next.frames := by
  cases callable with
  | native n => exact Tie.invokeNative hs n args line
  | routine closure => exact h.invoke hs hcallable hargs (Interp.takes_some hcount)
  | classValue cls => exact h.construct hs hcallable hargs hcount

lemma call (h : Tied C i j) (hs : m.Sound U) {callee : Value} (hcallee : callee.Fits U m.frames)
    {args : List Value} (hargs : ∀ v ∈ args, v.Fits U m.frames) (line : Nat) :
    Tie C m (i.call callee args line) (j.call callee args line) fun v next =>
      v.Fits U next.frames := by
  unfold Interp.call
  cases hcallable : Callable.ofValue? callee with
  | none => exact Tie.fail hs _ _
  | some callable =>
      dsimp only
      split
      · next hcount =>
          refine Tie.bind (Tie.pushCall hs _) ?_
          intro _ m₁ hs₁ hle₁ _
          refine Tie.bind (Tie.note hs₁ _) ?_
          intro _ m₂ hs₂ hle₂ _
          have hle := hle₁.trans hle₂
          have hrest : Tie C m₂
              (i.invokeCallable callable args line >>= fun result => do
                Run.popCall
                Run.note fun m => "return " ++ callable.name ++ " " ++ result.result m.fieldNames
                return result)
              (j.invokeCallable callable args line >>= fun result => do
                Run.popCall
                Run.note fun m => "return " ++ callable.name ++ " " ++ result.result m.fieldNames
                return result)
              fun v next => v.Fits U next.frames := by
            refine Tie.bind (h.invokeCallable hs₂ ((hcallee.callable hcallable).mono hle)
              (fun v hv => (hargs v hv).mono hle) hcount line) ?_
            intro result m₃ hs₃ _ hresult
            refine Tie.bind (Tie.popCall hs₃) ?_
            intro _ m₄ hs₄ hle₄ _
            refine Tie.bind (Tie.note hs₄ _) ?_
            intro _ m₅ hs₅ hle₅ _
            exact Tie.pure hs₅ (hresult.mono (hle₄.trans hle₅))
          refine Tie.get_bind ?_
          split
          · exact Tie.bind (Tie.fail (Q := fun _ _ => False) hs₂ line .stackOverflow)
              fun _ _ _ _ hfalse => hfalse.elim
          · exact hrest
      · exact Tie.fail hs _ _

end Tied

/-! ## Properties -/

lemma Object.read_tie (hs : m.Sound U) {object : Object} (hobject : object.cls.Fits U m.frames)
    (name : Token) :
    Tie C m (object.read name) (object.read name) fun v next => v.Fits U next.frames := by
  refine Tie.get_bind ?_
  cases hfield : (m.fieldsOf object.ident).find? name.lexeme with
  | some v => exact Tie.pure hs (hs.fields _ _ v hfield)
  | none =>
      cases hmethod : object.cls.method? name.lexeme with
      | none => exact Tie.fail hs _ _
      | some method =>
          refine Tie.bind (Closure.bind_tie hs (hobject.method hmethod) hobject) ?_
          intro bound next hs' _ hbound
          exact Tie.pure hs' (.routine hbound.1)

lemma Object.write_tie (hs : m.Sound U) (object : Object) (name : Token) {v : Value}
    (hv : v.Fits U m.frames) (inside : Bool) :
    Tie C m (object.write name v inside) (object.write name v inside) fun _ _ => True := by
  refine Tie.get_bind ?_
  split
  · exact Tie.putField hs object name.lexeme hv
  · exact Tie.fail hs _ _

namespace Tied

lemma readProperty (h : Tied C i j) (hs : m.Sound U) {object : Object}
    (hobject : object.cls.Fits U m.frames) (name : Token) (inside : Bool) :
    Tie C m (i.readProperty object name inside) (j.readProperty object name inside) fun v next =>
      v.Fits U next.frames := by
  unfold Interp.readProperty
  split
  · exact Object.read_tie hs hobject name
  · split
    · next getter _ hgetter =>
        have ⟨hfits, hcount⟩ := hobject.getter hgetter
        exact h.invokeOn hs hfits hobject (by simp) (by simp [hcount])
    · exact Tie.fail hs _ _
    · exact Object.read_tie hs hobject name

lemma getProperty (h : Tied C i j) (hs : m.Sound U) {target : Value}
    (htarget : target.Fits U m.frames) (name : Token) (inside : Bool) :
    Tie C m (i.getProperty target name inside) (j.getProperty target name inside) fun v next =>
      v.Fits U next.frames := by
  cases htarget with
  | object hobject => exact h.readProperty hs hobject name inside
  | classValue hcls =>
      unfold Interp.getProperty
      dsimp only
      split
      · next method hmethod => exact Tie.pure hs (.routine (hcls.static hmethod))
      · exact Tie.fail hs _ _
  | _ => exact Tie.fail hs _ _

lemma writeProperty (h : Tied C i j) (hs : m.Sound U) {object : Object}
    (hobject : object.cls.Fits U m.frames) (name : Token) {v : Value} (hv : v.Fits U m.frames)
    (inside : Bool) :
    Tie C m (i.writeProperty object name v inside) (j.writeProperty object name v inside)
      fun _ _ => True := by
  unfold Interp.writeProperty
  split
  · exact Object.write_tie hs object name hv inside
  · split
    · next setter _ hsetter =>
        have ⟨hfits, hcount⟩ := hobject.setter hsetter
        exact Tie.bind (h.invokeOn hs hfits hobject (by simpa using hv) (by simp [hcount]))
          fun _ _ hs' _ _ => Tie.pure hs' trivial
    · exact Tie.fail hs _ _
    · exact Object.write_tie hs object name hv inside

end Tied

/-! ## Inherited methods -/

/-- Where `super` is accepted, the superclass is bound; the receiver is bound in the scope right inside of
it, or `super` stands in a static method. -/
lemma Scope.Context.Legal.inherited (hlegal : c.Legal) {name : Token}
    (hname : name.lexeme = superName) (hcheck : c.checkInherited name = []) :
    ∃ d, c.scopes.depth superName = some d
      ∧ ((∃ k scope, d = k + 1 ∧ c.scopes[k]? = some scope ∧ scope.contains thisName = true)
        ∨ Use.InStaticMethod ⟨c, .inherited, name⟩) := by
  unfold Context.checkInherited at hcheck
  split at hcheck
  · cases hcheck
  · cases hcheck
  · next hderived =>
      obtain ⟨d, hd, hcase⟩ := Scopes.exists_of_owned (hlegal.owned hderived)
      refine ⟨d, hd, ?_⟩
      rcases hcase with hreceiver | hnone
      · exact Or.inl hreceiver
      · refine Or.inr ⟨rfl, d, by rw [← hname] at hd; exact hd, hnone, ?_⟩
        have hany : c.hasReceiver = true := by
          unfold complainWhen at hcheck
          split at hcheck
          · cases hcheck
          · next h => simpa using h
        obtain ⟨scope, hmem, hthis⟩ := List.any_eq_true.mp hany
        rw [← List.take_append_drop (d + 1) c.scopes] at hmem
        rcases List.mem_append.mp hmem with htake | hdrop
        · rw [hnone scope htake] at hthis
          cases hthis
        · exact ⟨scope, hdrop, hthis⟩

lemma Machine.Sound.find_object (hs : m.Sound U) {address : Address} {v : Value}
    (hfind : (m.frames.frame address).find? thisName = some v) :
    ∃ object, v = .object object ∧ object.cls.Fits U m.frames := by
  obtain ⟨hfits, hsuits⟩ := hs.frames address _ v hfind
  obtain ⟨object, rfl⟩ := hsuits.receiver rfl
  cases hfits with
  | object h => exact ⟨object, rfl, h⟩

lemma Machine.Sound.find_class (hs : m.Sound U) {address : Address} {v : Value}
    (hfind : (m.frames.frame address).find? superName = some v) :
    ∃ cls, v = .classValue cls ∧ cls.Fits U m.frames := by
  obtain ⟨hfits, hsuits⟩ := hs.frames address _ v hfind
  obtain ⟨cls, rfl⟩ := hsuits.superclass rfl
  cases hfits with
  | classValue h => exact ⟨cls, rfl, h⟩

/-- A reserved name that is bound in a scope is bound in its frame. -/
lemma Frames.Mirror.find_reserved (hmirror : m.frames.Mirror env c.scopes) (hlegal : c.Legal)
    {k : Nat} {scope : Scope} {name : String} (hscope : c.scopes[k]? = some scope)
    (hcontains : scope.contains name = true) (hname : name = thisName ∨ name = superName) :
    ∃ address v, env[k]? = some address ∧ (m.frames.frame address).find? name = some v := by
  obtain ⟨address, haddress, -, hnames⟩ := hmirror.binds k scope hscope
  obtain ⟨ready, hfind⟩ := Table.contains_iff.mp hcontains
  cases ready with
  | true =>
      obtain ⟨v, hv⟩ := Table.contains_iff.mp (hnames name hfind)
      exact ⟨address, v, haddress, hv⟩
  | false =>
      obtain ⟨-, hthis, hsuper⟩ := hlegal.pending k scope name hscope hfind
      rcases hname with hname | hname
      · exact absurd hname hthis
      · exact absurd hname hsuper

lemma Reference.inherited_tie (hs : m.Sound U) (hlegal : c.Legal)
    (hmirror : m.frames.Mirror env c.scopes) {ref : Reference Unit}
    (hname : ref.name.lexeme = superName) (hcheck : c.checkInherited ref.name = [])
    (hstatic : Use.InStaticMethod ⟨c, .inherited, ref.name⟩ → C.Natural (.crash (.unbound thisName)))
    (method : Token) :
    Tie C m ((ref.resolve c).inherited method env) ((ref.resolve c).inherited method env)
      fun v next => v.Fits U next.frames := by
  obtain ⟨d, hd, hcase⟩ := hlegal.inherited hname hcheck
  refine Tie.get_bind ?_
  have hbound : (ref.resolve c).bound = some d := by rw [← hd, ← hname]; rfl
  rw [hbound]
  dsimp only
  -- the superclass
  obtain ⟨hlt, hcontains, -⟩ := List.findIdx?_eq_some_iff_getElem.mp hd
  obtain ⟨address, v, haddress, hfind⟩ := hmirror.find_reserved hlegal
    (List.getElem?_eq_getElem hlt) hcontains (Or.inr rfl)
  obtain ⟨cls, rfl, hcls⟩ := hs.find_class hfind
  have hsuper : m.frames.getAt env d superName = .ok (.classValue cls) := by
    simp [Frames.getAt, haddress, hfind]
  rw [hsuper]
  refine Tie.pure_bind ?_
  -- the receiver
  have hreceiver : (∃ object, m.frames.getAt env (d - 1) thisName = .ok (.object object)
        ∧ object.cls.Fits U m.frames)
      ∨ m.frames.getAt env (d - 1) thisName = .error (.unbound thisName)
        ∧ C.Natural (.crash (.unbound thisName)) := by
    rcases hcase with ⟨k, scope, rfl, hscope, hthis⟩ | huse
    · obtain ⟨a, w, ha, hw⟩ := hmirror.find_reserved hlegal hscope hthis (Or.inl rfl)
      obtain ⟨object, rfl, hobject⟩ := hs.find_object hw
      exact Or.inl ⟨object, by simp [Frames.getAt, ha, hw], hobject⟩
    · have hlt' : d - 1 < c.scopes.length := by omega
      obtain ⟨a, ha, -, -⟩ := hmirror.binds (d - 1) _ (List.getElem?_eq_getElem hlt')
      cases hw : (m.frames.frame a).find? thisName with
      | none => exact Or.inr ⟨by simp [Frames.getAt, ha, hw], hstatic huse⟩
      | some w =>
          obtain ⟨object, rfl, hobject⟩ := hs.find_object hw
          exact Or.inl ⟨object, by simp [Frames.getAt, ha, hw], hobject⟩
  rcases hreceiver with ⟨object, hget, hobject⟩ | ⟨hget, hnatural⟩
  · rw [hget]
    refine Tie.pure_bind ?_
    dsimp only
    cases hmethod : cls.method? method.lexeme with
    | none => exact Tie.fail hs _ _
    | some found =>
        refine Tie.bind (Closure.bind_tie hs (hcls.method hmethod) hobject) ?_
        intro bound next hs' _ hbound
        exact Tie.pure hs' (.routine hbound.1)
  · rw [hget]
    exact Tie.bind (Tie.error (Q := fun _ _ => False) rfl hs hnatural)
      fun _ _ _ _ hfalse => hfalse.elim

/-! ## Class declarations -/

/-- The routines of a class are closures whose bodies are admitted. -/
lemma Stmt.AdmittedRoutines.closure {kind : Token → BodyKind} {rs : List (Routine (Stmt Unit))}
    (h : Stmt.AdmittedRoutines U c kind rs) :
    ∀ decl ∈ Stmt.resolveRoutines c kind rs, (∃ r ∈ rs, decl.params = r.params)
      ∧ ∀ ident env b, Closure.Admitted U c ⟨ident, decl, env, b⟩ := by
  induction rs with
  | nil => simp [Stmt.resolveRoutines]
  | cons r rest ih =>
      obtain ⟨name, params, body⟩ := r
      obtain ⟨hparams, hbody, hrest⟩ := h
      intro decl hdecl
      rcases List.mem_cons.mp hdecl with rfl | hdecl
      · exact ⟨⟨_, List.mem_cons_self, rfl⟩, fun _ _ _ => ⟨kind name, body, rfl, hparams, hbody⟩⟩
      · obtain ⟨⟨r, hr, hparams'⟩, hadmitted⟩ := ih hrest decl hdecl
        exact ⟨⟨r, List.mem_cons_of_mem _ hr, hparams'⟩, hadmitted⟩

/-- The closures of a group have a property that all closures of its routines have. -/
lemma closures_tie {isConstructor : String → Bool} {P : Closure → Prop} :
    ∀ {decls : List (Routine (Stmt Depth))} {table : Table Closure} {m : Machine}, m.Sound U →
    (∀ decl ∈ decls, ∀ ident, P ⟨ident, decl, env, isConstructor decl.name.lexeme⟩) →
    (∀ name closure, table.find? name = some closure → P closure) →
    Tie C m (closures env isConstructor decls table) (closures env isConstructor decls table)
      fun t _ => ∀ name closure, t.find? name = some closure → P closure := by
  intro decls
  induction decls with
  | nil => exact fun hs _ htable => Tie.pure hs htable
  | cons decl rest ih =>
      intro table m hs hdecls htable
      refine Tie.bind (Tie.newIdent hs) ?_
      intro ident next hs' _ _
      refine ih hs' (fun d hd => hdecls d (List.mem_cons_of_mem _ hd)) ?_
      intro name closure hfind
      rw [Table.find?_insert] at hfind
      split at hfind
      · cases hfind
        exact hdecls decl List.mem_cons_self ident
      · exact htable name closure hfind

/-- The frame of the superclass is there if the scope of one is. -/
lemma classEnv_tie (hs : m.Sound U) (hmirror : m.frames.Mirror env c.scopes)
    {superclass : Option (Reference Unit)} {parent : Option ClassValue}
    (hsome : parent.isSome = superclass.isSome) (hparent : ∀ cls ∈ parent, cls.Fits U m.frames) :
    Tie C m (classEnv env parent) (classEnv env parent) fun inner next =>
      next.frames.Mirror inner (c.inClass superclass).scopes := by
  cases superclass with
  | none =>
      cases parent with
      | none => exact Tie.pure hs hmirror
      | some cls => cases hsome
  | some ref =>
      cases parent with
      | none => cases hsome
      | some cls =>
          have hclass : (Value.classValue cls).Suits superName :=
            ⟨fun heq => absurd heq (by decide), fun _ => ⟨cls, rfl⟩⟩
          refine Tie.bind (Tie.newFrame hs
            (Table.fits_singleton (.classValue (hparent cls rfl)) hclass)) ?_
          rintro address next hs' hle ⟨hlt, hframe⟩
          refine Tie.pure hs' ((hmirror.mono hle).push hlt ?_)
          intro name hname
          rw [hframe]
          simp only [Table.singleton, Table.find?, Table.lookup, Table.contains] at hname ⊢
          split at hname
          · next heq => simp [heq]
          · cases hname

lemma Tie.assign (hs : m.Sound U) {name : Token} (hname : name.Declarable) {v : Value}
    (hv : v.Fits U m.frames) :
    Tie C m (Run.assign env name v) (Run.assign env name v) fun _ _ => True := by
  refine Tie.get_bind ?_
  cases hassign : m.frames.assign? env name.lexeme v with
  | none => exact Tie.fail hs _ _
  | some frames =>
      obtain ⟨address, -, rfl⟩ := Frames.assign?_eq_some hassign
      have hle := Frames.Le.define m.frames address name.lexeme v
      exact Tie.ok rfl (hs.define (hv.mono hle) (hname.suits v)) hle trivial

namespace Tied

lemma superclass (h : Tied C i j) (hs : m.Sound U) (hc : c.Settled)
    (hmirror : m.frames.Mirror env c.scopes) {superclass : Option (Reference Unit)}
    (hadmitted : ∀ ref ∈ superclass, (Expr.variable ref).Admitted U c) :
    Tie C m (i.superclass env (superclass.map (·.resolve c)))
      (j.superclass env (superclass.map (·.resolve c))) fun parent next =>
        parent.isSome = superclass.isSome ∧ ∀ cls ∈ parent, cls.Fits U next.frames := by
  cases superclass with
  | none => exact Tie.pure hs ⟨rfl, by simp⟩
  | some ref =>
      refine Tie.bind (h.eval hc.legal (hadmitted ref rfl) hs hmirror) ?_
      intro v next hs' _ hv
      cases hv with
      | classValue hcls => exact Tie.pure hs' ⟨rfl, by simpa using hcls⟩
      | _ => exact Tie.fail hs' _ _

end Tied

end KScript

import KScript.Proofs.Lineage.Recorded

/-!
# Evaluation keeps the record

An evaluator under a watch and the plain one are kept together by everything that a form of expression or
statement does with its parts (`Recording.evalStep`, `Recording.execStep`), from any machine that knows its
record.  Every routine that is called is run where its body stands, and a class declaration adds to the
record.
-/

namespace KScript

open Scope

variable {sources : List String} {known : List Declared} {m : Machine} {around : List Construct} {env : Env}
  {i : List Declared × Signal → Interp} {j : Interp}

/-! ## Variables -/

namespace Machine.Knows

lemma getAt (hm : m.Knows sources known) {depth : Nat} {name : String} {v : Value}
    (h : m.frames.getAt env depth name = .ok v) : v.Linked sources (m.world known) := by
  obtain ⟨address, -, hfind⟩ := Frames.find_of_getAt h
  exact hm.linked (.frame address) name v hfind

end Machine.Knows

namespace Reference

variable (ref : Reference Depth)

lemma read_recorded (hm : m.Knows sources known) (env : Env) :
    Recorded sources known m (fun _ => ref.read env) (ref.read env) fun v w => v.Linked sources w := by
  refine .get_bind ?_
  dsimp only
  split
  · exact .orCrash hm fun v hv => hm.getAt hv
  · split
    · next value hfind => exact .pure hm (hm.linked (.frame Machine.globalAddress) _ _ hfind)
    · exact .fail hm _ _

variable {ref}

lemma write_recorded (hm : m.Knows sources known) (hname : ref.name.Declarable) {v : Value}
    (hv : v.Linked sources (m.world known)) (env : Env) :
    Recorded sources known m (fun _ => ref.write env v) (ref.write env v) fun _ _ => True := by
  unfold write
  dsimp only
  split
  · split
    · exact .throw hm _
    · next address _ => exact .put hm (.frame address) (fun _ _ => hname) hv
  · refine .get_bind ?_
    split
    · exact .put hm (.frame Machine.globalAddress) (fun _ _ => hname) hv
    · exact .fail hm _ _

lemma step_recorded (hm : m.Knows sources known) (hname : ref.name.Declarable) (direction : Direction)
    (use : StepUse) (env : Env) :
    Recorded sources known m (fun _ => ref.step direction use env) (ref.step direction use env)
      fun v w => v.Linked sources w := by
  refine .bind (ref.read_recorded hm env) fun v next later hnext _ _ => ?_
  split
  · exact .bind (write_recorded hnext hname (.scalar _) env) fun _ _ _ hlast _ _ =>
      .pure hlast (.scalar _)
  · exact .fail hnext _ _

end Reference

/-! ## Calls -/

namespace Closure

variable {c : Closure}

/-- The parameters of the routines of a recorded declaration are not reserved. -/
lemma params_of_declared (hm : m.Knows sources known) {made : Declared} (hmade : made ∈ known) {role : Role}
    (hc : (made.cls.own.group role).find? c.decl.name.lexeme = some c) :
    ∀ p ∈ c.decl.params, p.Declarable := by
  intro p hp
  obtain ⟨hmem, -⟩ := ((hm.orderly.sound hmade).routines role).find hc
  refine ((hm.kept made hmade).runs.stands hm.orderly).marked.declarable p (List.mem_cons_of_mem _ ?_)
  refine List.mem_flatMap.mpr ⟨c.decl, ?_, hp⟩
  simp only [List.mem_append]
  cases role with
  | subroutine => cases hmem
  | method => exact .inl (.inl (.inl hmem))
  | staticMethod => exact .inl (.inl (.inr hmem))
  | getter => exact .inl (.inr hmem)
  | setter => exact .inr hmem

lemma Linked.params (h : c.Linked sources (m.world known)) (hm : m.Knows sources known) :
    ∀ p ∈ c.decl.params, p.Declarable := by
  cases h with
  | subroutine h =>
      exact fun p hp => (h.stands hm.orderly).marked.declarable p (List.mem_cons_of_mem _ hp)
  | static hmade hc => exact params_of_declared hm hmade hc
  | bound hmade _ hc hdecl => exact hdecl ▸ params_of_declared hm hmade hc

/-- **Where the body of a routine is run.** -/
lemma Linked.body (h : c.Linked sources (m.world known)) (hm : m.Knows sources known) {address : Address}
    (ha : (m.world known).Plain address) :
    ∃ around, ∀ s ∈ c.decl.body, (m.world known).Runs sources around (address :: c.env) (.stmt s) := by
  cases h with
  | subroutine h => exact ⟨_, fun s hs => .subroutine h hs ha⟩
  | @static made c hmade hc =>
      have henv := ((hm.orderly.sound hmade).routines _).env _ _ hc
      rw [henv]
      exact ⟨_, fun s hs => .static hmade (hm.kept _ hmade).runs hc hs ha⟩
  | bound hmade hrole hc hdecl henv hreceiver =>
      rw [hdecl] at hrole ⊢
      rw [henv]
      exact ⟨_, fun s hs => .member hmade (hm.kept _ hmade).runs hrole hc hs ha hreceiver⟩

/-- A method of a recorded class gets a receiver. -/
lemma bind_recorded (hm : m.Knows sources known) {made : Declared} (hmade : made ∈ known) {role : Role}
    (hrole : (Construct.routine role c.decl.name).hasReceiver = true)
    (hc : (made.cls.own.group role).find? c.decl.name.lexeme = some c) {object : Object}
    (hobject : object.cls.Known (m.world known)) (hlineage : made.cls.lineage <:+ object.cls.lineage) :
    Recorded sources known m (fun _ => c.bind object) (c.bind object) fun bound w =>
      bound.Linked sources w := by
  refine .bind (.newFrame hm (.singleton _ (.object hobject))) fun address next later hnext hle hframe => ?_
  refine .bind (.newIdent hnext) fun ident last latest hlast hle' _ => .pure hlast ?_
  have henv := ((hm.orderly.sound hmade).routines role).env _ _ hc
  have hreceives : (next.world later).Receives made address object :=
    ⟨by rw [hframe.2.2]; rfl, hlineage⟩
  exact .bound (hle'.known (hle.known hmade)) hrole hc rfl (congrArg (address :: ·) henv)
    (hreceives.mono hle')

end Closure

/-- What is given back is linked. -/
def Completion.Linked (sources : List String) (w : World) (completion : Completion) : Prop :=
  ∀ v, completion = .returned v → v.Linked sources w

namespace Completion.Linked

variable {w : World}

lemma normal : Completion.normal.Linked sources w := fun _ heq => by cases heq

lemma broke : Completion.broke.Linked sources w := fun _ heq => by cases heq

lemma continued : Completion.continued.Linked sources w := fun _ heq => by cases heq

end Completion.Linked

/-- The evaluators under the watches keep together with the plain one, wherever a phrase is run. -/
structure Recording (sources : List String) (i : List Declared × Signal → Interp) (j : Interp) : Prop where
  plain : j = interpAt j.fuel
  fuel : ∀ all, (i all).fuel = j.fuel
  eval : ∀ {known : List Declared} {m : Machine} {around : List Construct} {env : Env} {e : Expr Depth},
    m.Knows sources known → (m.world known).Runs sources around env (.expr e) →
    Recorded sources known m (fun all => (i all).eval env e) (j.eval env e) fun v w => v.Linked sources w
  exec : ∀ {known : List Declared} {m : Machine} {around : List Construct} {env : Env} {s : Stmt Depth},
    m.Knows sources known → (m.world known).Runs sources around env (.stmt s) →
    Recorded sources known m (fun all => (i all).exec env s) (j.exec env s) fun c w => c.Linked sources w

namespace Recording

lemma evalAll (h : Recording sources i j) : ∀ {es : List (Expr Depth)} {known : List Declared} {m : Machine},
    m.Knows sources known → (∀ e ∈ es, (m.world known).Runs sources around env (.expr e)) →
    Recorded sources known m (fun all => (i all).evalAll env es) (j.evalAll env es)
      fun vs w => ∀ v ∈ vs, v.Linked sources w := by
  intro es
  induction es with
  | nil => exact fun hm _ => .pure hm (by simp)
  | cons e rest ih =>
      intro known m hm hes
      have ⟨he, hrest⟩ := List.forall_mem_cons.mp hes
      refine .bind (h.eval hm he) fun v next later hnext hle hv => ?_
      refine .bind (ih hnext fun e he => (hrest e he).mono hle) fun vs last latest hlast hle' hvs => ?_
      exact .pure hlast (List.forall_mem_cons.mpr ⟨hv.mono hle', hvs⟩)

lemma test (h : Recording sources i j) (hm : m.Knows sources known) {e : Expr Depth}
    (he : (m.world known).Runs sources around env (.expr e)) :
    Recorded sources known m (fun all => (i all).test env e) (j.test env e) fun _ _ => True :=
  .bind (h.eval hm he) fun _ _ _ hnext _ _ => .pure hnext trivial

lemma evalOption (h : Recording sources i j) (hm : m.Knows sources known) {e : Option (Expr Depth)}
    (he : ∀ x ∈ e, (m.world known).Runs sources around env (.expr x)) :
    Recorded sources known m (fun all => (i all).evalOption env e) (j.evalOption env e)
      fun v w => v.Linked sources w := by
  cases e with
  | none => exact .pure hm (.scalar _)
  | some e => exact h.eval hm (he e rfl)

lemma execAll (h : Recording sources i j) : ∀ {ss : List (Stmt Depth)} {known : List Declared} {m : Machine},
    m.Knows sources known → (∀ s ∈ ss, (m.world known).Runs sources around env (.stmt s)) →
    Recorded sources known m (fun all => (i all).execAll env ss) (j.execAll env ss)
      fun c w => c.Linked sources w := by
  intro ss
  induction ss with
  | nil => exact fun hm _ => .pure hm .normal
  | cons s rest ih =>
      intro known m hm hss
      have ⟨hs, hrest⟩ := List.forall_mem_cons.mp hss
      refine .bind (h.exec hm hs) fun completion next later hnext hle hcompletion => ?_
      cases completion with
      | normal => exact ih hnext fun s hs => (hrest s hs).mono hle
      | broke | continued | returned v => exact .pure hnext hcompletion

end Recording

variable (known) in
/-- A loop, given what its parts do on every machine from its start on. -/
lemma Recorded.loop {test : List Declared × Signal → Run Bool} {test' : Run Bool}
    {body : List Declared × Signal → Run Completion} {body' : Run Completion} {after : List Declared × Signal → Run Unit}
    {after' : Run Unit}
    (htest : ∀ (next : Machine) later, next.Knows sources later → (m.world known).Le (next.world later) →
      Recorded sources later next test test' fun _ _ => True)
    (hbody : ∀ (next : Machine) later, next.Knows sources later → (m.world known).Le (next.world later) →
      Recorded sources later next body body' fun c w => c.Linked sources w)
    (hafter : ∀ (next : Machine) later, next.Knows sources later → (m.world known).Le (next.world later) →
      Recorded sources later next after after' fun _ _ => True) (fuel : Nat) :
    ∀ {start : Machine} {later : List Declared}, start.Knows sources later →
      (m.world known).Le (start.world later) →
      Recorded sources later start (fun all => Run.loop (test all) (body all) (after all) fuel)
        (Run.loop test' body' after' fuel) fun c w => c.Linked sources w := by
  induction fuel with
  | zero => exact fun hs _ => .throw hs _
  | succ fuel ih =>
      intro start later hs hle
      refine .bind (htest start later hs hle) fun holds next _ hnext hle' _ => ?_
      cases holds with
      | false => exact .pure hnext .normal
      | true =>
          have hle₁ := hle.trans hle'
          refine .bind (hbody next _ hnext hle₁) fun completion last latest hlast hle'' hcompletion => ?_
          have hle₂ := hle₁.trans hle''
          have hagain : Recorded sources latest last
              (fun all => after all >>= fun _ => Run.loop (test all) (body all) (after all) fuel)
              (after' >>= fun _ => Run.loop test' body' after' fuel) fun c w => c.Linked sources w :=
            .bind (hafter last latest hlast hle₂) fun _ _ _ hfinal hle₃ _ => ih hfinal (hle₂.trans hle₃)
          cases completion with
          | normal => exact hagain
          | continued => exact hagain
          | broke => exact .pure hlast .normal
          | returned v => exact .pure hlast hcompletion

/-- A frame whose names are not reserved is plain. -/
lemma World.plain_of_keys {w : World} {address : Address} {bindings : Table Value}
    (h : address < w.frames.size ∧ w.frames.frame address = bindings)
    (hthis : bindings.find? thisName = none) (hsuper : bindings.find? superName = none) :
    w.Plain address :=
  ⟨h.1, h.2 ▸ hthis, h.2 ▸ hsuper⟩

/-- A table does not bind a name that it was not given. -/
lemma Table.find?_ofList_eq_none {entries : List (String × Value)} {name : String}
    (h : ∀ e ∈ entries, e.1 ≠ name) : (Table.ofList entries).find? name = none := by
  refine Table.ofList_induction (P := fun t => t.find? name = none) rfl fun t ht e he => ?_
  rw [Table.find?_insert, if_neg (h e he), ht]

namespace Recording

lemma invoke (h : Recording sources i j) (hm : m.Knows sources known) {c : Closure}
    (hc : c.Linked sources (m.world known)) {args : List Value}
    (hargs : ∀ v ∈ args, v.Linked sources (m.world known)) :
    Recorded sources known m (fun all => (i all).invoke c args) (j.invoke c args)
      fun v w => v.Linked sources w := by
  have hbindings : (Table.ofList ((c.decl.params.map (·.lexeme)).zip args)).All
      (Value.Linked sources (m.world known)) :=
    .ofList fun e he => hargs e.2 (List.of_mem_zip he).2
  have hparams := hc.params hm
  have hkeys (key : String) (hkey : ∀ p ∈ c.decl.params, p.lexeme ≠ key) :
      (Table.ofList ((c.decl.params.map (·.lexeme)).zip args)).find? key = none := by
    refine Table.find?_ofList_eq_none fun e he => ?_
    obtain ⟨p, hp, heq⟩ := List.mem_map.mp (List.of_mem_zip he).1
    exact heq ▸ hkey p hp
  refine .bind (.newFrame hm hbindings) fun address next later hnext hle hframe => ?_
  have hplain := World.plain_of_keys hframe.2 (hkeys _ fun p hp => (hparams p hp).1)
    (hkeys _ fun p hp => (hparams p hp).2)
  obtain ⟨place, hbody⟩ := (hc.mono hle).body hnext hplain
  refine .bind (h.execAll hnext hbody) fun completion last latest hlast _ hcompletion => ?_
  split
  · exact .get_bind (.orCrash hlast fun v hv => hlast.getAt hv)
  · split
    · exact .pure hlast (hcompletion _ rfl)
    · exact .pure hlast (.scalar _)

/-- A method that an object finds is run on it. -/
lemma invokeOn (h : Recording sources i j) (role : Role) (hm : m.Knows sources known) {c : Closure}
    {object : Object} (hobject : object.cls.Known (m.world known))
    (hrole : ∀ name, (Construct.routine role name).hasReceiver = true) {name : String}
    (hfind : object.cls.search role name = some c)
    {args : List Value} (hargs : ∀ v ∈ args, v.Linked sources (m.world known)) :
    Recorded sources known m (fun all => (i all).invokeOn c object args) (j.invokeOn c object args)
      fun v w => v.Linked sources w := by
  obtain ⟨made, hmade, hc, hlineage⟩ := hobject.find role hm.orderly hfind
  exact .bind (Closure.bind_recorded hm hmade (hrole _) hc hobject hlineage)
    fun _ _ _ hnext hle hbound => h.invoke hnext hbound fun v hv => (hargs v hv).mono hle

lemma construct (h : Recording sources i j) (hm : m.Knows sources known) {cls : ClassValue}
    (hcls : cls.Known (m.world known)) {args : List Value}
    (hargs : ∀ v ∈ args, v.Linked sources (m.world known)) :
    Recorded sources known m (fun all => (i all).construct cls args) (j.construct cls args)
      fun v w => v.Linked sources w := by
  refine .bind (.newObject hm hcls) fun object next later hnext hle hobject => ?_
  have hknown : object.cls.Known (next.world later) := hobject.1 ▸ hobject.2
  cases hfind : cls.constructor? with
  | none => exact .pure hnext (.object hknown)
  | some c =>
      refine .bind (h.invokeOn .method hnext hknown (fun _ => rfl) (hobject.1 ▸ hfind)
        fun v hv => (hargs v hv).mono hle) fun _ last latest hlast hle' _ => ?_
      exact .pure hlast (.object (hknown.mono hle'))

lemma invokeNative (hm : m.Knows sources known) (n : Native) (args : List Value) (line : Nat) :
    Recorded sources known m (fun _ => Interp.invokeNative n args line) (Interp.invokeNative n args line)
      fun v w => v.Linked sources w := by
  refine .bind (Q := fun result _ => Native.Gives result) (.modifyGet hm (Native.gives_apply n args m.console)
    ⟨rfl, rfl, Nat.le_refl _⟩) fun result next later hnext _ hresult => ?_
  split
  · obtain ⟨literal, rfl⟩ := hresult
    exact .pure hnext (.scalar literal)
  · exact .fail hnext _ _
  · exact .throw hnext _

/-- What can be called through a value is known. -/
lemma invokeCallable (h : Recording sources i j) (hm : m.Knows sources known) {callee : Value}
    (hcallee : callee.Linked sources (m.world known)) {callable : Callable}
    (hcallable : Callable.ofValue? callee = some callable) {args : List Value}
    (hargs : ∀ v ∈ args, v.Linked sources (m.world known)) (line : Nat) :
    Recorded sources known m (fun all => (i all).invokeCallable callable args line)
      (j.invokeCallable callable args line) fun v w => v.Linked sources w := by
  cases hcallee with
  | native n =>
      cases hcallable
      exact invokeNative hm n args line
  | routine hc =>
      cases hcallable
      exact h.invoke hm hc hargs
  | classValue hcls =>
      cases hcallable
      exact h.construct hm hcls hargs
  | _ => cases hcallable

lemma call (h : Recording sources i j) (hm : m.Knows sources known) {callee : Value}
    (hcallee : callee.Linked sources (m.world known)) {args : List Value}
    (hargs : ∀ v ∈ args, v.Linked sources (m.world known)) (line : Nat) :
    Recorded sources known m (fun all => (i all).call callee args line) (j.call callee args line)
      fun v w => v.Linked sources w := by
  cases hcallable : Callable.ofValue? callee with
  | none =>
      simp only [Interp.call, hcallable]
      exact .fail hm _ _
  | some callable =>
      by_cases htakes : Interp.takes callable.arity args.length = true
      · simp only [Interp.call_eq _ line hcallable htakes]
        refine .bind (.pushCall hm _) fun _ m₁ k₁ hm₁ hle₁ _ => ?_
        have hlisted : Recorded sources k₁ m₁ (fun all => (i all).listedCall callable args line)
            (j.listedCall callable args line) fun v w => v.Linked sources w := by
          refine .bind (.note hm₁ _) fun _ m₂ k₂ hm₂ hle₂ _ => .get_bind ?_
          have hle := hle₁.trans hle₂
          have hrest := h.invokeCallable hm₂ (hcallee.mono hle) hcallable
            (fun v hv => (hargs v hv).mono hle) line
          split
          · exact .bind (Q := fun _ _ => False) (.fail hm₂ _ _) fun _ _ _ _ _ hfalse => hfalse.elim
          · exact hrest
        refine .bind hlisted fun result m₃ k₃ hm₃ _ hresult => ?_
        refine .bind (.popCall hm₃) fun _ m₄ k₄ hm₄ hle₄ _ => ?_
        refine .bind (.note hm₄ _) fun _ m₅ k₅ hm₅ hle₅ _ => ?_
        exact .pure hm₅ (hresult.mono (hle₄.trans hle₅))
      · simp only [Interp.call, hcallable, htakes]
        exact .fail hm _ _

end Recording

/-! ## Properties -/

lemma Object.read_recorded (hm : m.Knows sources known) {object : Object}
    (hobject : object.cls.Known (m.world known)) (name : Token) :
    Recorded sources known m (fun _ => object.read name) (object.read name)
      fun v w => v.Linked sources w := by
  refine .get_bind ?_
  split
  · next value hfind => exact .pure hm (hm.linked (.object object.ident) _ _ hfind)
  · split
    · next method hmethod =>
        obtain ⟨made, hmade, hc, hlineage⟩ := hobject.find .method hm.orderly hmethod
        exact .bind (Closure.bind_recorded hm hmade rfl hc hobject hlineage) fun _ _ _ hnext _ hbound =>
          .pure hnext (.routine hbound)
    · exact .fail hm _ _

lemma Object.write_recorded (hm : m.Knows sources known) (object : Object) (name : Token) {v : Value}
    (hv : v.Linked sources (m.world known)) (inside : Bool) :
    Recorded sources known m (fun _ => object.write name v inside) (object.write name v inside)
      fun _ _ => True := by
  refine .get_bind ?_
  split
  · exact .putField hm object _ hv
  · exact .fail hm _ _

namespace Recording

lemma readProperty (h : Recording sources i j) (hm : m.Knows sources known) {object : Object}
    (hobject : object.cls.Known (m.world known)) (name : Token) (inside : Bool) :
    Recorded sources known m (fun all => (i all).readProperty object name inside)
      (j.readProperty object name inside) fun v w => v.Linked sources w := by
  unfold Interp.readProperty
  split
  · exact Object.read_recorded hm hobject name
  · split
    · next getter _ hgetter =>
        exact h.invokeOn .getter hm hobject (fun _ => rfl) hgetter (by simp)
    · exact .fail hm _ _
    · exact Object.read_recorded hm hobject name

lemma getProperty (h : Recording sources i j) (hm : m.Knows sources known) {target : Value}
    (htarget : target.Linked sources (m.world known)) (name : Token) (inside : Bool) :
    Recorded sources known m (fun all => (i all).getProperty target name inside)
      (j.getProperty target name inside) fun v w => v.Linked sources w := by
  cases htarget with
  | object hobject => exact h.readProperty hm hobject name inside
  | classValue hcls =>
      unfold Interp.getProperty
      dsimp only
      split
      · next method hmethod =>
          obtain ⟨made, hmade, hc, -⟩ := hcls.find .staticMethod hm.orderly hmethod
          exact .pure hm (.routine (.static hmade hc))
      · exact .fail hm _ _
  | _ => exact .fail hm _ _

lemma writeProperty (h : Recording sources i j) (hm : m.Knows sources known) {object : Object}
    (hobject : object.cls.Known (m.world known)) (name : Token) {v : Value}
    (hv : v.Linked sources (m.world known)) (inside : Bool) :
    Recorded sources known m (fun all => (i all).writeProperty object name v inside)
      (j.writeProperty object name v inside) fun _ _ => True := by
  unfold Interp.writeProperty
  split
  · exact Object.write_recorded hm object name hv _
  · split
    · next setter _ hsetter =>
        exact .bind (h.invokeOn .setter hm hobject (fun _ => rfl) hsetter (by simpa using hv))
          fun _ _ _ hnext _ _ => .pure hnext trivial
    · exact .fail hm _ _
    · exact Object.write_recorded hm object name hv _

end Recording

/-! ## What is inherited -/

lemma Reference.inherited_recorded (hm : m.Knows sources known) {ref : Reference Depth} {method : Token}
    (h : (m.world known).Runs sources around env (.expr (.inherited ref method))) :
    Recorded sources known m (fun _ => ref.inherited method env) (ref.inherited method env)
      fun v w => v.Linked sources w := by
  obtain ⟨inner, role, name, outer, made, parent, depth, hsuper, hcase⟩ := hm.inherits h
  split at hcase
  · obtain ⟨object, hbinds⟩ := hcase
    have hthis := hm.getAt hbinds.receiver
    have hobject : object.cls.Known (m.world known) := by
      cases hthis with
      | object h => exact h
    have hparent : parent.Known (m.world known) := hm.orderly.parent hsuper.known hsuper.parent
    have hancestors : parent.lineage <:+ made.cls.lineage := by
      rw [ClassValue.lineage_parent? hsuper.parent]
      exact List.suffix_cons _ _
    refine .congr (hbinds.result method) ?_
    unfold ClassValue.inherit
    cases hfind : parent.method? method.lexeme with
    | none => exact .fail hm _ _
    | some c =>
        obtain ⟨found, hfound, hc, hlineage⟩ := hparent.find .method hm.orderly hfind
        refine .bind (Closure.bind_recorded hm hfound rfl hc hobject
          (hlineage.trans (hancestors.trans hbinds.lineage))) fun _ _ _ hnext _ hbound => ?_
        exact .pure hnext (.routine hbound)
  · exact .error (hcase method) hm

/-! ## Class declarations -/

lemma Table.Lists.insert {table : Table Closure} {done : List (Routine (Stmt Depth))}
    (h : table.Lists env done) (decl : Routine (Stmt Depth)) (ident : Nat) (isConstructor : Bool) :
    (table.insert decl.name.lexeme ⟨ident, decl, env, isConstructor⟩).Lists env (done ++ [decl]) where
  last name := by
    rw [Table.find?_insert, List.reverse_append, List.reverse_singleton, List.singleton_append,
      List.find?_cons]
    by_cases hname : decl.name.lexeme = name
    · simp [hname]
    · simp [hname, h.last name]
  env name c hc := by
    rw [Table.find?_insert] at hc
    split at hc
    · cases hc
      rfl
    · exact h.env name c hc

/-- The closures of a group are listed under their names, the last one of each. -/
lemma closures_recorded {isConstructor : String → Bool} : ∀ {decls done : List (Routine (Stmt Depth))}
    {table : Table Closure} {known : List Declared} {m : Machine}, m.Knows sources known →
    table.Lists env done →
    Recorded sources known m (fun _ => closures env isConstructor decls table)
      (closures env isConstructor decls table) fun t _ => t.Lists env (done ++ decls) := by
  intro decls
  induction decls with
  | nil =>
      intro done table known m hm htable
      exact .pure hm (by simpa using htable)
  | cons decl rest ih =>
      intro done table known m hm htable
      refine .bind (.newIdent hm) fun ident next later hnext _ _ => ?_
      rw [List.append_cons]
      exact ih hnext (htable.insert decl ident _)

lemma Table.Lists.empty : (Table.empty : Table Closure).Lists env [] :=
  ⟨fun _ => rfl, fun _ _ hc => by cases hc⟩

/-- The frame of the superclass is there if there is one. -/
lemma classEnv_recorded (hm : m.Knows sources known) {parent : Option ClassValue}
    (hparent : ∀ cls ∈ parent, cls.Known (m.world known)) :
    Recorded sources known m (fun _ => classEnv env parent) (classEnv env parent) fun inner w =>
      ∃ frame : Option Address, inner = frame.toList ++ env ∧ frame = parent.map (fun _ => m.frames.size)
        ∧ ∀ address ∈ frame, ∃ cls, parent = some cls
          ∧ (w.frames.frame address).find? superName = some (.classValue cls) := by
  cases parent with
  | none => exact .pure hm ⟨none, rfl, rfl, nofun⟩
  | some cls =>
      refine .bind (.newFrame hm (.singleton _ (.classValue (hparent cls rfl))))
        fun address next later hnext _ hframe => .pure hnext ⟨some address, rfl, by rw [hframe.1]; rfl, ?_⟩
      rintro _ ⟨⟩
      exact ⟨cls, rfl, by rw [hframe.2.2]; rfl⟩

lemma Run.assign_recorded (hm : m.Knows sources known) {name : Token} (hname : name.Declarable) {v : Value}
    (hv : v.Linked sources (m.world known)) (env : Env) :
    Recorded sources known m (fun _ => Run.assign env name v) (Run.assign env name v) fun _ _ => True := by
  refine .get_bind ?_
  cases hassign : m.frames.assign? env name.lexeme v with
  | none => exact .fail hm _ _
  | some frames =>
      obtain ⟨address, -, rfl⟩ := Frames.assign?_eq_some hassign
      exact .congr rfl (.put hm (.frame address) (fun _ _ => hname) hv)

namespace Recording

lemma superclass (h : Recording sources i j) (hm : m.Knows sources known) {ref : Option (Reference Depth)}
    (href : ∀ r ∈ ref, (m.world known).Runs sources around env (.expr (.variable r))) :
    Recorded sources known m (fun all => (i all).superclass env ref) (j.superclass env ref) fun parent w =>
      parent.isSome = ref.isSome ∧ ∀ cls ∈ parent, cls.Known w := by
  cases ref with
  | none => exact .pure hm ⟨rfl, nofun⟩
  | some ref =>
      refine .bind (h.eval hm (href ref rfl)) fun v next later hnext _ hv => ?_
      cases hv with
      | classValue hcls =>
          refine .pure hnext ⟨rfl, ?_⟩
          rintro _ ⟨⟩
          exact hcls
      | _ => exact .fail hnext _ _

/-- **The execution of a class declaration is recorded.** -/
theorem declareClass (h : Recording sources i j) (hm : m.Knows sources known) {name : Token}
    {superclass : Option (Reference Depth)} {methods statics getters setters : List (Routine (Stmt Depth))}
    (hruns : (m.world known).Runs sources around env
      (.stmt (.classDecl name superclass methods statics getters setters))) :
    Recorded sources known m
      (fun all => (i all).declareClass env name superclass methods statics getters setters)
      (j.declareClass env name superclass methods statics getters setters) fun _ _ => True := by
  have hname := (hruns.stands hm.orderly).marked.declarable name List.mem_cons_self
  refine .bind (.define hm hname (.scalar _) env) fun _ m₁ k₁ hm₁ hle₁ _ => ?_
  have hsuper : ∀ r ∈ superclass, (m₁.world k₁).Runs sources around env (.expr (.variable r)) := by
    intro r hr
    refine (hruns.mono hle₁).part ?_
    simp only [Phrase.below, Stmt.phrases, List.mem_append]
    exact .inl (.inl (.inl (.inl (List.mem_map.mpr ⟨r, Option.mem_toList.mpr hr, rfl⟩))))
  refine .bind (h.superclass hm₁ hsuper).traced fun parent m₂ k₂ hm₂ hle₂ hfound => ?_
  obtain ⟨hparent, found, hfound, hframes⟩ := hfound
  rw [h.plain] at hfound
  refine .bind (classEnv_recorded hm₂ hparent.2) fun inner m₃ k₃ hm₃ hle₃ hinner => ?_
  obtain ⟨frame, rfl, hframe, hbound⟩ := hinner
  refine .bind (closures_recorded hm₃ .empty) fun methods' m₄ k₄ hm₄ hle₄ hmethods => ?_
  refine .bind (closures_recorded hm₄ .empty) fun statics' m₅ k₅ hm₅ hle₅ hstatics => ?_
  refine .bind (closures_recorded hm₅ .empty) fun getters' m₆ k₆ hm₆ hle₆ hgetters => ?_
  refine .bind (closures_recorded hm₆ .empty) fun setters' m₇ k₇ hm₇ hle₇ hsetters => ?_
  have hle₃₇ := ((hle₄.trans hle₅).trans hle₆).trans hle₇
  have hle₂₇ := hle₃.trans hle₃₇
  let made (n : Nat) : Declared :=
    { around, outer := env, name, superclass, methods, statics, getters, setters, frame
      cls := ⟨⟨n, name.lexeme, methods', statics', getters', setters'⟩, (parent.map (·.lineage)).getD []⟩ }
  have hmade (n : Nat) : (made n).cls.parent? = parent := ClassValue.parent?_mk _ _
  refine .bind (.declare hm₇ made (fun _ => rfl) (fun n => ?_) (fun n p hp => ?_) fun n => ?_)
    fun ident m₈ k₈ hm₈ hle₈ hcls => ?_
  · have hsize : frame = (made n).cls.parent?.map fun _ => found.frames.size := by
      rw [hmade, hframe, ← hframes]
      rfl
    refine ⟨rfl, ⟨_, m₁, found, by rw [hmade]; exact hfound, hsize⟩, ?_, fun role => ?_⟩
    · show superclass.isSome = frame.isSome
      rw [← hparent.1, hsize, Option.isSome_map, hmade]
    cases role with
    | subroutine => exact .empty
    | method => exact hmethods
    | staticMethod => exact hstatics
    | getter => exact hgetters
    | setter => exact hsetters
  · rw [hmade] at hp
    exact (hparent.2 p hp).mono hle₂₇
  · refine ⟨hruns.mono ((hle₁.trans hle₂).trans hle₂₇), fun address haddress => ?_⟩
    obtain ⟨cls, hcls, hfind⟩ := hbound address haddress
    exact ⟨cls, (hmade n).trans hcls, hle₃₇.find (.inr rfl) hfind⟩
  refine .bind (.note hm₈ _) fun _ m₉ k₉ hm₉ hle₉ _ => ?_
  exact Run.assign_recorded hm₉ hname (.classValue (ClassValue.Known.mono hcls hle₉)) env

/-! ## Expressions -/

/-- **What a form of expression does with its parts keeps the record.** -/
theorem evalStep (h : Recording sources i j) (hm : m.Knows sources known) {e : Expr Depth}
    (hruns : (m.world known).Runs sources around env (.expr e)) :
    Recorded sources known m (fun all => (i all).evalStep env e) (j.evalStep env e)
      fun v w => v.Linked sources w := by
  have hpart {next : Machine} {later : List Declared} (hle : (m.world known).Le (next.world later))
      {operand : Expr Depth} (hmem : operand ∈ e.operands) :
      (next.world later).Runs sources around env (.expr operand) :=
    (hruns.mono hle).part (List.mem_map.mpr ⟨operand, hmem, rfl⟩)
  have hbinds := (hruns.stands hm.orderly).marked.declarable
  cases e with
  | literal value => exact .pure hm (.scalar value)
  | array items =>
      refine .bind (h.evalAll hm fun e he => hpart (.refl _) he) fun vs next later hnext _ hvs => ?_
      refine .bind (.newIdent hnext) fun ident last latest hlast hle _ => ?_
      exact .pure hlast (.array fun v hv => (hvs v hv).mono hle)
  | grouping inner => exact h.eval hm (hpart (.refl _) List.mem_cons_self)
  | unary op operand =>
      refine .bind (h.eval hm (hpart (.refl _) List.mem_cons_self)) fun v next later hnext _ _ => ?_
      refine .orFail hnext _ fun w hw => ?_
      obtain ⟨literal, rfl⟩ := Operator.unary_scalar hw
      exact .scalar literal
  | binary left op right =>
      refine .bind (h.eval hm (hpart (.refl _) List.mem_cons_self)) fun a next later hnext hle _ => ?_
      refine .bind (h.eval hnext (hpart hle (by simp [Expr.operands]))) fun b last latest hlast _ _ => ?_
      refine .orFail hlast _ fun w hw => ?_
      obtain ⟨literal, rfl⟩ := Operator.binary_scalar hw
      exact .scalar literal
  | logical left op right =>
      refine .bind (h.eval hm (hpart (.refl _) List.mem_cons_self)) fun a next later hnext hle ha => ?_
      split
      · exact .pure hnext ha
      · exact h.eval hnext (hpart hle (by simp [Expr.operands]))
  | conditional condition yes no =>
      refine .bind (h.test hm (hpart (.refl _) List.mem_cons_self)) fun holds next later hnext hle _ => ?_
      split
      · exact h.eval hnext (hpart hle (by simp [Expr.operands]))
      · exact h.eval hnext (hpart hle (by simp [Expr.operands]))
  | «variable» ref => exact ref.read_recorded hm env
  | assign ref value =>
      refine .bind (h.eval hm (hpart (.refl _) List.mem_cons_self)) fun v next later hnext _ hv => ?_
      refine .bind (Reference.write_recorded hnext (hbinds ref.name List.mem_cons_self) hv env)
        fun _ last latest hlast hle _ => ?_
      exact .pure hlast (hv.mono hle)
  | step direction ref =>
      exact Reference.step_recorded hm (hbinds ref.name List.mem_cons_self) direction .expression env
  | call callee paren args =>
      refine .bind (h.eval hm (hpart (.refl _) List.mem_cons_self)) fun target next later hnext hle ht => ?_
      refine .bind (h.evalAll hnext fun e he => hpart hle (List.mem_cons_of_mem _ he))
        fun vs last latest hlast hle' hvs => ?_
      exact h.call hlast (ht.mono hle') hvs paren.line
  | get object name inside =>
      refine .bind (h.eval hm (hpart (.refl _) List.mem_cons_self)) fun target next later hnext _ ht => ?_
      exact h.getProperty hnext ht name inside
  | set object name value inside =>
      refine .bind (h.eval hm (hpart (.refl _) List.mem_cons_self)) fun target next later hnext hle ht => ?_
      cases ht with
      | object hobject =>
          refine .bind (h.eval hnext (hpart hle (by simp [Expr.operands])))
            fun v last latest hlast hle' hv => ?_
          refine .bind (h.writeProperty hlast (hobject.mono hle') name hv inside)
            fun _ _ _ hfinal hle'' _ => ?_
          exact .pure hfinal (hv.mono hle'')
      | _ => exact .fail hnext _ _
  | receiver ref => exact ref.read_recorded hm env
  | inherited ref method => exact Reference.inherited_recorded hm hruns

/-! ## Statements -/

/-- The first clause of a `for` loop. -/
lemma begin (h : Recording sources i j) (hm : m.Knows sources known) {start : Option (ForStart Depth)}
    (hstart : ∀ s ∈ start, (m.world known).Runs sources around env (.stmt s.toStmt)) :
    Recorded sources known m (fun all => (i all).begin env start) (j.begin env start) fun _ _ => True := by
  cases start with
  | none => exact .pure hm trivial
  | some s => exact .bind (h.exec hm (hstart s rfl)) fun _ _ _ hnext _ _ => .pure hnext trivial

lemma exitWith (hm : m.Knows sources known) (line : Nat) (v : Value) :
    Recorded sources known m (fun _ => Interp.exitWith line v) (Interp.exitWith line v)
      fun c w => c.Linked sources w := by
  unfold Interp.exitWith
  split
  · split
    · exact .bind (.note hm _) fun _ _ _ hnext _ _ => .throw hnext _
    · exact .fail hm _ _
  · exact .fail hm _ _

/-- A new frame without bindings. -/
lemma enter (hm : m.Knows sources known) :
    Recorded sources known m (fun _ => Run.newFrame .empty) (Run.newFrame .empty)
      fun address w => w.Plain address :=
  (Recorded.newFrame hm .empty).imp fun _ _ _ hframe => World.plain_of_keys hframe.2 rfl rfl

/-- **What a form of statement does with its parts keeps the record.** -/
theorem execStep (h : Recording sources i j) (hm : m.Knows sources known) {s : Stmt Depth}
    (hruns : (m.world known).Runs sources around env (.stmt s)) :
    Recorded sources known m (fun all => (i all).execStep env s) (j.execStep env s)
      fun c w => c.Linked sources w := by
  have hpart {next : Machine} {later : List Declared} (hle : (m.world known).Le (next.world later))
      {q : Phrase Depth} (hq : ([], q) ∈ s.phrases) : (next.world later).Runs sources around env q :=
    (hruns.mono hle).part hq
  have hbinds := (hruns.stands hm.orderly).marked.declarable
  cases s with
  | expr e =>
      exact .bind (h.eval hm (hpart (.refl _) List.mem_cons_self)) fun _ _ _ hnext _ _ =>
        .pure hnext .normal
  | echo e =>
      refine .bind (h.eval hm (hpart (.refl _) List.mem_cons_self)) fun v next later hnext _ _ => ?_
      exact .bind (.write hnext _) fun _ _ _ hlast _ _ => .pure hlast .normal
  | var name value =>
      refine .bind (h.evalOption hm fun e he => hpart (.refl _)
        (List.mem_map.mpr ⟨e, Option.mem_toList.mpr he, rfl⟩)) fun v next later hnext _ hv => ?_
      exact .bind (.define hnext (hbinds name List.mem_cons_self) hv env) fun _ _ _ hlast _ _ =>
        .pure hlast .normal
  | block body =>
      refine .bind (enter hm) fun address next later hnext hle ha => ?_
      refine h.execAll hnext fun s hs => .enter (hruns.mono hle) (.inl rfl) ?_ ha
      exact List.mem_map.mpr ⟨s, hs, rfl⟩
  | exit keyword code =>
      refine .bind (h.eval hm (hpart (.refl _) List.mem_cons_self)) fun v next later hnext _ _ => ?_
      exact exitWith hnext _ v
  | branch condition yes no =>
      refine .bind (h.test hm (hpart (.refl _) List.mem_cons_self)) fun holds next later hnext hle _ => ?_
      split
      · exact h.exec hnext (hpart hle (by simp [Stmt.phrases]))
      · cases no with
        | none => exact .pure hnext .normal
        | some s => exact h.exec hnext (hpart hle (by simp [Stmt.phrases]))
  | loop condition body =>
      have hfuel : ∀ all, (i all).execStep env (.loop condition body)
          = Run.loop ((i all).test env condition) ((i all).exec env body) (pure ()) j.fuel := fun all => by
        rw [← h.fuel all]
        rfl
      simp only [hfuel]
      refine Recorded.loop (m := m) known (fun next later hnext hle => ?_)
        (fun next later hnext hle => ?_) (fun next later hnext _ => .pure hnext trivial) j.fuel hm (.refl _)
      · exact h.test hnext (hpart hle (by simp [Stmt.phrases]))
      · exact h.exec hnext (hpart hle (by simp [Stmt.phrases]))
  | forLoop start condition after body =>
      have hfuel : ∀ all, (i all).execStep env (.forLoop start condition after body) = (do
          let address ← Run.newFrame .empty
          (i all).begin (address :: env) start
          Run.loop ((i all).test (address :: env) condition) ((i all).exec (address :: env) body)
            ((i all).advance (address :: env) after) j.fuel) := fun all => by
        rw [← h.fuel all]
        rfl
      simp only [hfuel]
      refine .bind (enter hm) fun address m₁ k₁ hm₁ hle₁ ha => ?_
      have hinner {next : Machine} {later : List Declared} (hle : (m₁.world k₁).Le (next.world later))
          {q : Phrase Depth} (hq : ([.forLoop], q) ∈ (Stmt.forLoop start condition after body).phrases) :
          (next.world later).Runs sources (.forLoop :: around) (address :: env) q :=
        .enter (hruns.mono (hle₁.trans hle)) (.inr rfl) hq (ha.mono hle)
      refine .bind (h.begin hm₁ fun s hs => hinner (.refl _) ?_) fun _ m₂ k₂ hm₂ hle₂ _ => ?_
      · exact List.mem_append_left _ (List.mem_map.mpr ⟨s, Option.mem_toList.mpr hs, rfl⟩)
      refine Recorded.loop (m := m₂) k₂ (fun next later hnext hle => ?_)
        (fun next later hnext hle => ?_) (fun next later hnext hle => ?_) j.fuel hm₂ (.refl _)
      · exact h.test hnext (hinner (hle₂.trans hle) (by simp [Stmt.phrases]))
      · exact h.exec hnext (hinner (hle₂.trans hle) (by simp [Stmt.phrases]))
      · have hafter (e : Expr Depth) (he : e ∈ after) :
            (next.world later).Runs sources (.forLoop :: around) (address :: env) (.expr e) := by
          refine hinner (hle₂.trans hle) ?_
          simp only [Stmt.phrases, List.mem_append, List.mem_cons]
          exact .inr (.inr (.inr (List.mem_map.mpr ⟨e, Option.mem_toList.mpr he, rfl⟩)))
        exact .bind (h.evalOption hnext hafter) fun _ _ _ hlast _ _ => .pure hlast trivial
  | step direction ref =>
      exact .bind (Reference.step_recorded hm (hbinds ref.name List.mem_cons_self) direction .statement env)
        fun _ _ _ hnext _ _ => .pure hnext .normal
  | jump jump keyword =>
      cases jump with
      | breakLoop => exact .pure hm .broke
      | continueLoop => exact .pure hm .continued
  | routine decl =>
      refine .bind (.newIdent hm) fun ident next later hnext hle _ => ?_
      refine .bind (.define hnext (hbinds decl.name List.mem_cons_self) (.routine ?_) env)
        fun _ _ _ hlast _ _ => .pure hlast .normal
      exact .subroutine (hruns.mono hle)
  | giveBack keyword value =>
      refine .bind (h.evalOption hm fun e he => hpart (.refl _)
        (List.mem_map.mpr ⟨e, Option.mem_toList.mpr he, rfl⟩)) fun v next later hnext _ hv => ?_
      refine .pure hnext ?_
      rintro _ ⟨⟩
      exact hv
  | classDecl name superclass methods statics getters setters =>
      exact .bind (h.declareClass hm hruns) fun _ _ _ hnext _ _ => .pure hnext .normal

end Recording

end KScript

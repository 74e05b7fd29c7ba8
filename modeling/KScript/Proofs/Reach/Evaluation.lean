import KScript.Proofs.Eval.Outline
import KScript.Proofs.Reach.Policy

/-!
# Evaluation follows every policy

Everything that evaluation does is made of the operations that a policy was checked for.  So two evaluators
that follow a policy on expressions and on the bodies of the routines that may be called follow it on
expressions one level further up (`Policy.Agrees.evalStep`): expressions bring no code of their own, so what
they can call is on the machine.  Statements do bring code; if all of it is of the kind that may be declared,
they follow the policy as well (`Policy.Follows.execStep`), and so does every level of the evaluator
(`interpAt_follows`).
-/

namespace KScript

variable {P : Policy} {env : Env} {i j : Interp}

/-! ## Variables -/

/-- A name that is found some frames out is bound in one of the frames. -/
lemma Frames.find_of_getAt {frames : Frames Value} {depth : Nat} {name : String} {v : Value}
    (h : frames.getAt env depth name = .ok v) :
    ∃ address ∈ env, (frames.frame address).find? name = some v := by
  unfold getAt at h
  cases haddress : env[depth]? with
  | none => simp [haddress] at h
  | some address =>
      rw [haddress] at h
      refine ⟨address, List.mem_of_getElem? haddress, ?_⟩
      cases hfind : (frames.frame address).find? name with
      | none => simp [hfind] at h
      | some w => simpa [hfind] using h

lemma Policy.fine_getAt {m : Machine} {depth : Nat} {name : String} {v : Value} (hm : P.Inv m)
    (henv : P.Admits env) (h : m.frames.getAt env depth name = .ok v) : P.Fine v := by
  obtain ⟨address, haddress, hfind⟩ := Frames.find_of_getAt h
  exact P.read hm (henv address haddress) name v hfind

/-- A method gets its receiver. -/
lemma Closure.bind_obeys {c : Closure} (hc : P.Ready c) {o : Object} (ho : P.Fine (.object o)) :
    P.Obeys (c.bind o) (c.bind o) P.Ready :=
  .bind (.newFrame (.singleton _ ho)) fun _ haddress => .bind .newIdent fun ident _ =>
    .pure (P.ready_bound hc haddress ident)

namespace Reference

variable (ref : Reference Depth)

lemma read_obeys (henv : P.Admits env) : P.Obeys (ref.read env) (ref.read env) P.Fine := by
  refine .get_bind fun m hm => ?_
  dsimp only
  split
  · exact .orCrash fun v hv => P.fine_getAt hm henv hv
  · split
    · next value hfind => exact .pure (P.read hm P.global _ _ hfind)
    · exact .fail _ _

lemma write_obeys (henv : P.Admits env) {v : Value} (hv : P.Fine v) :
    P.Obeys (ref.write env v) (ref.write env v) fun _ => True := by
  unfold write
  dsimp only
  split
  · split
    · exact .throw _
    · next address haddress =>
        exact .put (.frame address) _ (henv address (List.mem_of_getElem? haddress)) hv
  · refine .get_bind fun m _ => ?_
    split
    · exact .put (.frame Machine.globalAddress) _ P.global hv
    · exact .fail _ _

lemma step_obeys (henv : P.Admits env) (direction : Direction) (use : StepUse) :
    P.Obeys (ref.step direction use env) (ref.step direction use env) P.Fine := by
  refine .bind (ref.read_obeys henv) fun v _ => ?_
  split
  · exact .bind (ref.write_obeys henv (P.scalar _)) fun _ _ => .pure (P.scalar _)
  · exact .fail _ _

lemma inherited_obeys (method : Token) (henv : P.Admits env) :
    P.Obeys (ref.inherited method env) (ref.inherited method env) P.Fine := by
  refine .get_bind fun m hm => ?_
  dsimp only
  split
  · exact .throw _
  · refine .bind (.orCrash fun v hv => P.fine_getAt hm henv hv) fun superclass hsuper => ?_
    refine .bind (.orCrash fun v hv => P.fine_getAt hm henv hv) fun receiver hreceiver => ?_
    split
    · split
      · next found hfound =>
          exact .bind (Closure.bind_obeys ((P.classValue.mp hsuper).method hfound) hreceiver)
            fun _ hbound => .pure (P.routine.mpr hbound)
      · exact .fail _ _
    · exact .throw _

end Reference

/-! ## Evaluators -/

namespace Policy

/-- What a statement gives back may be used. -/
def Gives (P : Policy) (c : Completion) : Prop := ∀ v, c = .returned v → P.Fine v

/-- The evaluators follow the policy on expressions and on the bodies of routines. -/
structure Agrees (P : Policy) (i j : Interp) : Prop where
  eval : ∀ {env : Env} (e : Expr Depth), P.Admits env → P.Obeys (i.eval env e) (j.eval env e) P.Fine
  body : ∀ {env : Env} (r : Routine (Stmt Depth)), P.Kind r → P.Admits env →
    P.Obeys (i.execAll env r.body) (j.execAll env r.body) P.Gives

end Policy

namespace Interp

/-- What happens while a call is listed. -/
def listedCall (i : Interp) (callable : Callable) (args : List Value) (line : Nat) : Run Value := do
  Run.note fun m => "call " ++ callable.name ++ " " ++ Value.detailedList m.fieldNames args
  if callLimit < (← get).calls.length then
    Run.fail line .stackOverflow
  i.invokeCallable callable args line

lemma call_eq (i : Interp) {callee : Value} {callable : Callable} {args : List Value} (line : Nat)
    (hcallable : Callable.ofValue? callee = some callable)
    (htakes : takes callable.arity args.length = true) :
    i.call callee args line = (do
      Run.pushCall ⟨callable.name, args⟩
      let result ← i.listedCall callable args line
      Run.popCall
      Run.note fun m => "return " ++ callable.name ++ " " ++ result.result m.fieldNames
      return result) := by
  simp only [call, hcallable, htakes, if_true, listedCall, bind_assoc]
  congr 1
  funext _
  congr 1
  funext _
  congr 1
  funext m
  split <;> simp [bind_assoc]

lemma invokeNative_obeys (n : Native) (args : List Value) (line : Nat) :
    P.Obeys (invokeNative n args line) (invokeNative n args line) P.Fine := by
  refine .bind (.modifyGet (Q := Native.Gives) (fun m => Native.gives_apply n args m.console)
    fun _ => ⟨rfl, rfl, rfl⟩) fun result hresult => ?_
  split
  · obtain ⟨literal, rfl⟩ := hresult
    exact .pure (P.scalar _)
  · exact .fail _ _
  · exact .throw _

end Interp

namespace Object

variable {o : Object}

lemma read_obeys (ho : P.Fine (.object o)) (name : Token) :
    P.Obeys (o.read name) (o.read name) P.Fine := by
  obtain ⟨hobject, hcls⟩ := P.object.mp ho
  refine .get_bind fun m hm => ?_
  split
  · next value hfind => exact .pure (P.read hm hobject _ _ hfind)
  · split
    · next method hmethod =>
        exact .bind (Closure.bind_obeys (hcls.method hmethod) ho) fun _ hbound =>
          .pure (P.routine.mpr hbound)
    · exact .fail _ _

lemma write_obeys (ho : P.Fine (.object o)) (name : Token) {v : Value} (hv : P.Fine v) (inside : Bool) :
    P.Obeys (o.write name v inside) (o.write name v inside) fun _ => True := by
  refine .get_bind fun m _ => ?_
  split
  · exact .putField ho _ hv
  · exact .fail _ _

end Object

namespace Policy.Agrees

lemma evalAll (h : P.Agrees i j) (henv : P.Admits env) (es : List (Expr Depth)) :
    P.Obeys (i.evalAll env es) (j.evalAll env es) fun vs => ∀ v ∈ vs, P.Fine v := by
  induction es with
  | nil => exact .pure (by simp)
  | cons e rest ih =>
      refine .bind (h.eval e henv) fun v hv => .bind ih fun vs hvs => .pure ?_
      exact List.forall_mem_cons.mpr ⟨hv, hvs⟩

lemma test (h : P.Agrees i j) (henv : P.Admits env) (e : Expr Depth) :
    P.Obeys (i.test env e) (j.test env e) fun _ => True :=
  .bind (h.eval e henv) fun _ _ => .pure trivial

lemma evalOption (h : P.Agrees i j) (henv : P.Admits env) (e : Option (Expr Depth)) :
    P.Obeys (i.evalOption env e) (j.evalOption env e) P.Fine := by
  cases e with
  | none => exact .pure (P.scalar _)
  | some e => exact h.eval e henv

lemma advance (h : P.Agrees i j) (henv : P.Admits env) (after : Option (Expr Depth)) :
    P.Obeys (i.advance env after) (j.advance env after) fun _ => True :=
  .bind (h.evalOption henv after) fun _ _ => .pure trivial

/-! ## Calls -/

lemma invoke (h : P.Agrees i j) {c : Closure} (hc : P.Ready c) {args : List Value}
    (hargs : ∀ v ∈ args, P.Fine v) : P.Obeys (i.invoke c args) (j.invoke c args) P.Fine := by
  obtain ⟨hkind, henv⟩ := P.ready.mp hc
  have hbindings : (Table.ofList ((c.decl.params.map (·.lexeme)).zip args)).All P.Fine :=
    .ofList fun e he => hargs e.2 (List.of_mem_zip he).2
  refine .bind (.newFrame hbindings) fun address haddress => ?_
  refine .bind (h.body c.decl hkind (henv.cons haddress)) fun completion hcompletion => ?_
  split
  · exact .get_bind fun m hm => .orCrash fun v hv => P.fine_getAt hm henv hv
  · split
    · exact .pure (hcompletion _ rfl)
    · exact .pure (P.scalar _)

lemma invokeOn (h : P.Agrees i j) {c : Closure} (hc : P.Ready c) {o : Object} (ho : P.Fine (.object o))
    {args : List Value} (hargs : ∀ v ∈ args, P.Fine v) :
    P.Obeys (i.invokeOn c o args) (j.invokeOn c o args) P.Fine :=
  .bind (Closure.bind_obeys hc ho) fun _ hbound => h.invoke hbound hargs

lemma construct (h : P.Agrees i j) {cls : ClassValue} (hcls : cls.Holding P.Ready) {args : List Value}
    (hargs : ∀ v ∈ args, P.Fine v) : P.Obeys (i.construct cls args) (j.construct cls args) P.Fine := by
  refine .bind (.newObject hcls) fun o ho => ?_
  split
  · exact .pure ho
  · next c hconstructor =>
      exact .bind (h.invokeOn (hcls.method hconstructor) ho hargs) fun _ _ => .pure ho

lemma invokeCallable (h : P.Agrees i j) {callee : Value} (hcallee : P.Fine callee) {callable : Callable}
    (hcallable : Callable.ofValue? callee = some callable) {args : List Value}
    (hargs : ∀ v ∈ args, P.Fine v) (line : Nat) :
    P.Obeys (i.invokeCallable callable args line) (j.invokeCallable callable args line) P.Fine := by
  cases callee with
  | native n =>
      cases hcallable
      exact Interp.invokeNative_obeys n args line
  | routine c =>
      cases hcallable
      exact h.invoke (P.routine.mp hcallee) hargs
  | classValue cls =>
      cases hcallable
      exact h.construct (P.classValue.mp hcallee) hargs
  | _ => cases hcallable

/-- **A call follows the policy.** -/
theorem call (h : P.Agrees i j) {callee : Value} (hcallee : P.Fine callee) {args : List Value}
    (hargs : ∀ v ∈ args, P.Fine v) (line : Nat) :
    P.Obeys (i.call callee args line) (j.call callee args line) P.Fine := by
  cases hcallable : Callable.ofValue? callee with
  | none =>
      simp only [Interp.call, hcallable]
      exact .fail _ _
  | some callable =>
      by_cases htakes : Interp.takes callable.arity args.length = true
      · have hinvoke := h.invokeCallable hcallee hcallable hargs line
        have hlisted : P.Obeys (i.listedCall callable args line) (j.listedCall callable args line) P.Fine := by
          refine .bind (.note _) fun _ _ => .get_bind fun m _ => ?_
          split
          · exact .bind (.fail (Q := fun _ => True) _ _) fun _ _ => hinvoke
          · exact hinvoke
        rw [Interp.call_eq i line hcallable htakes, Interp.call_eq j line hcallable htakes]
        exact .listed _ hlisted fun result hresult => .bind (.note _) fun _ _ => .pure hresult
      · simp only [Interp.call, hcallable, htakes]
        exact .fail _ _

/-! ## Properties -/

lemma readProperty (h : P.Agrees i j) {o : Object} (ho : P.Fine (.object o)) (name : Token)
    (inside : Bool) : P.Obeys (i.readProperty o name inside) (j.readProperty o name inside) P.Fine := by
  unfold Interp.readProperty
  split
  · exact Object.read_obeys ho name
  · split
    · next getter _ hgetter => exact h.invokeOn ((P.object.mp ho).2.getter hgetter) ho (by simp)
    · exact .fail _ _
    · exact Object.read_obeys ho name

lemma getProperty (h : P.Agrees i j) {target : Value} (htarget : P.Fine target) (name : Token)
    (inside : Bool) :
    P.Obeys (i.getProperty target name inside) (j.getProperty target name inside) P.Fine := by
  unfold Interp.getProperty
  split
  · exact h.readProperty htarget name inside
  · split
    · next method hmethod =>
        exact .pure (P.routine.mpr ((P.classValue.mp htarget).static hmethod))
    · exact .fail _ _
  · exact .fail _ _

lemma writeProperty (h : P.Agrees i j) {o : Object} (ho : P.Fine (.object o)) (name : Token) {v : Value}
    (hv : P.Fine v) (inside : Bool) :
    P.Obeys (i.writeProperty o name v inside) (j.writeProperty o name v inside) fun _ => True := by
  unfold Interp.writeProperty
  split
  · exact Object.write_obeys ho name hv _
  · split
    · next setter _ hsetter =>
        exact .bind (h.invokeOn ((P.object.mp ho).2.setter hsetter) ho (by simpa using hv)) fun _ _ =>
          .pure trivial
    · exact .fail _ _
    · exact Object.write_obeys ho name hv _

/-! ## Expressions -/

/-- **What a form of expression does follows the policy if its parts do.** -/
theorem evalStep (h : P.Agrees i j) (henv : P.Admits env) (e : Expr Depth) :
    P.Obeys (i.evalStep env e) (j.evalStep env e) P.Fine := by
  cases e with
  | literal value => exact .pure (P.scalar _)
  | array items =>
      exact .bind (h.evalAll henv items) fun vs hvs => .bind .newIdent fun _ _ => .pure (P.array hvs)
  | grouping inner => exact h.eval inner henv
  | unary op operand =>
      refine .bind (h.eval operand henv) fun v _ => .orFail _ fun w hw => ?_
      obtain ⟨literal, rfl⟩ := Operator.unary_scalar hw
      exact P.scalar _
  | binary left op right =>
      refine .bind (h.eval left henv) fun a _ => .bind (h.eval right henv) fun b _ => ?_
      refine .orFail _ fun w hw => ?_
      obtain ⟨literal, rfl⟩ := Operator.binary_scalar hw
      exact P.scalar _
  | logical left op right =>
      refine .bind (h.eval left henv) fun v hv => ?_
      split
      · exact .pure hv
      · exact h.eval right henv
  | conditional condition yes no =>
      refine .bind (h.test henv condition) fun holds _ => ?_
      split
      · exact h.eval yes henv
      · exact h.eval no henv
  | «variable» ref => exact ref.read_obeys henv
  | assign ref value =>
      exact .bind (h.eval value henv) fun v hv => .bind (ref.write_obeys henv hv) fun _ _ => .pure hv
  | step direction ref => exact ref.step_obeys henv direction .expression
  | call callee paren args =>
      exact .bind (h.eval callee henv) fun target htarget => .bind (h.evalAll henv args) fun vs hvs =>
        h.call htarget hvs paren.line
  | get object name inside =>
      exact .bind (h.eval object henv) fun target htarget => h.getProperty htarget name inside
  | set object name value inside =>
      refine .bind (h.eval object henv) fun target htarget => ?_
      split
      · exact .bind (h.eval value henv) fun v hv =>
          .bind (h.writeProperty htarget name hv inside) fun _ _ => .pure hv
      · exact .fail _ _
  | receiver ref => exact ref.read_obeys henv
  | inherited ref method => exact ref.inherited_obeys method henv

/-! ## Classes -/

lemma superclass (h : P.Agrees i j) (henv : P.Admits env) (ref : Option (Reference Depth)) :
    P.Obeys (i.superclass env ref) (j.superclass env ref)
      fun parent => ∀ cls ∈ parent, cls.Holding P.Ready := by
  cases ref with
  | none => exact .pure nofun
  | some ref =>
      refine .bind (h.eval (.variable ref) henv) fun v hv => ?_
      split
      · refine .pure ?_
        rintro cls ⟨⟩
        exact P.classValue.mp hv
      · exact .fail _ _

end Policy.Agrees

lemma classEnv_obeys (henv : P.Admits env) {parent : Option ClassValue}
    (hparent : ∀ cls ∈ parent, cls.Holding P.Ready) :
    P.Obeys (classEnv env parent) (classEnv env parent) P.Admits := by
  cases parent with
  | none => exact .pure henv
  | some cls =>
      exact .bind (.newFrame (.singleton _ (P.classValue.mpr (hparent cls rfl)))) fun _ haddress =>
        .pure (henv.cons haddress)

lemma closures_obeys (henv : P.Admits env) (isConstructor : String → Bool)
    {decls : List (Routine (Stmt Depth))} (hdecls : ∀ r ∈ decls, P.Kind r) {table : Table Closure}
    (htable : table.All P.Ready) :
    P.Obeys (closures env isConstructor decls table) (closures env isConstructor decls table)
      fun t => t.All P.Ready := by
  induction decls generalizing table with
  | nil => exact .pure htable
  | cons decl rest ih =>
      rw [List.forall_mem_cons] at hdecls
      exact .bind .newIdent fun _ _ => ih hdecls.2 (htable.insert _ (P.ready.mpr ⟨hdecls.1, henv⟩))

lemma Run.assign_obeys (henv : P.Admits env) (name : Token) {v : Value} (hv : P.Fine v) :
    P.Obeys (Run.assign env name v) (Run.assign env name v) fun _ => True := by
  intro m hm
  rw [Run.assign, Run.get_bind_apply]
  cases hassign : m.frames.assign? env name.lexeme v with
  | none => exact .inr ⟨rfl, P.cut _ hm⟩
  | some frames =>
      obtain ⟨address, haddress, rfl⟩ := Frames.assign?_eq_some hassign
      exact Policy.Obeys.put (.frame address) _ (henv address haddress) hv m hm

lemma Policy.Agrees.declareClass (h : P.Agrees i j) (henv : P.Admits env) (name : Token)
    (superclass : Option (Reference Depth)) {methods statics getters setters : List (Routine (Stmt Depth))}
    (hdecls : ∀ r ∈ methods ++ statics ++ getters ++ setters, P.Kind r) :
    P.Obeys (i.declareClass env name superclass methods statics getters setters)
      (j.declareClass env name superclass methods statics getters setters) fun _ => True := by
  simp only [List.forall_mem_append] at hdecls
  obtain ⟨⟨⟨hmethods, hstatics⟩, hgetters⟩, hsetters⟩ := hdecls
  refine .bind (.define henv _ (P.scalar _)) fun _ _ => ?_
  refine .bind (h.superclass henv superclass) fun parent hparent => ?_
  refine .bind (classEnv_obeys henv hparent) fun inner hinner => ?_
  refine .bind (closures_obeys hinner _ hmethods .empty) fun ms hms => ?_
  refine .bind (closures_obeys hinner _ hstatics .empty) fun ss hss => ?_
  refine .bind (closures_obeys hinner _ hgetters .empty) fun gs hgs => ?_
  refine .bind (closures_obeys hinner _ hsetters .empty) fun ts hts => ?_
  refine .bind .newIdent fun ident _ => .bind (.note _) fun _ _ => Run.assign_obeys henv name ?_
  refine P.classValue.mpr (List.forall_mem_cons.mpr ⟨Layer.forall_holds hms hss hgs hts, ?_⟩)
  cases parent with
  | none => simp
  | some cls => exact hparent cls rfl

/-! ## Statements -/

mutual

/-- The routines that are declared when the statement runs. -/
def Stmt.brought : Stmt Depth → List (Routine (Stmt Depth))
  | .block body => Stmt.broughtAll body
  | .branch _ yes no => yes.brought ++ Stmt.broughtOption no
  | .loop _ body => body.brought
  | .forLoop _ _ _ body => body.brought
  | .routine decl => [decl]
  | .classDecl _ _ methods statics getters setters => methods ++ statics ++ getters ++ setters
  | _ => []

/-- The same for statements that are listed. -/
def Stmt.broughtAll : List (Stmt Depth) → List (Routine (Stmt Depth))
  | [] => []
  | s :: rest => s.brought ++ Stmt.broughtAll rest

/-- The same for a statement that may be left out. -/
def Stmt.broughtOption : Option (Stmt Depth) → List (Routine (Stmt Depth))
  | none => []
  | some s => s.brought

end

/-- The routines that are declared when the statement runs are of the kind. -/
abbrev Stmt.Brings (K : Routine (Stmt Depth) → Prop) (s : Stmt Depth) : Prop := ∀ r ∈ s.brought, K r

abbrev Stmt.BringsAll (K : Routine (Stmt Depth) → Prop) (ss : List (Stmt Depth)) : Prop :=
  ∀ r ∈ Stmt.broughtAll ss, K r

lemma ForStart.brings_toStmt {K : Routine (Stmt Depth) → Prop} (start : ForStart Depth) :
    start.toStmt.Brings K := by
  cases start <;> nofun

/-- The statement has no statements of its own and does not jump. -/
def Stmt.isSimple : Stmt Depth → Bool
  | .block _ => false
  | .branch _ _ _ => false
  | .loop _ _ => false
  | .forLoop _ _ _ _ => false
  | .jump _ _ => false
  | .giveBack _ _ => false
  | _ => true

lemma Interp.exitWith_obeys (line : Nat) (v : Value) {Q : Completion → Prop} :
    P.Obeys (exitWith line v) (exitWith line v) Q := by
  unfold exitWith
  split
  · split
    · exact .bind (.note _) fun _ _ => .throw _
    · exact .fail _ _
  · exact .fail _ _

/-- Evaluators that follow a policy execute simple statements alike, and these end normally. -/
lemma Policy.Agrees.execStep_of_isSimple (h : P.Agrees i j) (henv : P.Admits env) {s : Stmt Depth}
    (hsimple : s.isSimple = true) (hs : s.Brings P.Kind) :
    P.Obeys (i.execStep env s) (j.execStep env s) (· = .normal) := by
  cases s with
  | expr e => exact .bind (h.eval e henv) fun _ _ => .pure rfl
  | echo e => exact .bind (h.eval e henv) fun _ _ => .bind (.write _) fun _ _ => .pure rfl
  | var name value =>
      exact .bind (h.evalOption henv value) fun v hv => .bind (.define henv _ hv) fun _ _ => .pure rfl
  | exit keyword code => exact .bind (h.eval code henv) fun v _ => Interp.exitWith_obeys _ v
  | step direction ref => exact .bind (ref.step_obeys henv direction .statement) fun _ _ => .pure rfl
  | routine decl =>
      refine .bind .newIdent fun _ _ => .bind (.define henv _ (P.routine.mpr ?_)) fun _ _ => .pure rfl
      exact P.ready.mpr ⟨hs decl List.mem_cons_self, henv⟩
  | classDecl name superclass methods statics getters setters =>
      exact .bind (h.declareClass henv name superclass hs) fun _ _ => .pure rfl
  | _ => cases hsimple

namespace Policy

/-- A loop follows the policy if its parts do. -/
lemma Obeys.loop {test test' : Run Bool} {body body' : Run Completion} {after after' : Run Unit}
    (htest : P.Obeys test test' fun _ => True) (hbody : P.Obeys body body' P.Gives)
    (hafter : P.Obeys after after' fun _ => True) (fuel : Nat) :
    P.Obeys (Run.loop test body after fuel) (Run.loop test' body' after' fuel) P.Gives := by
  induction fuel with
  | zero => exact .throw _
  | succ fuel ih =>
      refine .bind htest fun holds _ => ?_
      split
      · refine .bind hbody fun c hc => ?_
        split
        · exact .pure nofun
        · exact .pure hc
        · exact .bind hafter fun _ _ => ih
      · exact .pure nofun

/-- The evaluators follow the policy on all code that may be declared. -/
structure Follows (P : Policy) (i j : Interp) : Prop where
  fuel : i.fuel = j.fuel
  eval : ∀ {env : Env} (e : Expr Depth), P.Admits env → P.Obeys (i.eval env e) (j.eval env e) P.Fine
  exec : ∀ {env : Env} (s : Stmt Depth), s.Brings P.Kind → P.Admits env →
    P.Obeys (i.exec env s) (j.exec env s) P.Gives

/-- The bodies of the routines that may be declared declare only such routines. -/
def Closed (P : Policy) : Prop := ∀ r, P.Kind r → Stmt.BringsAll P.Kind r.body

namespace Follows

lemma execAll (h : P.Follows i j) {ss : List (Stmt Depth)} (hss : Stmt.BringsAll P.Kind ss)
    (henv : P.Admits env) : P.Obeys (i.execAll env ss) (j.execAll env ss) P.Gives := by
  induction ss with
  | nil => exact .pure nofun
  | cons s rest ih =>
      obtain ⟨hs, hrest⟩ := List.forall_mem_append.mp hss
      refine .bind (h.exec s hs henv) fun c hc => ?_
      split
      · exact ih hrest
      · exact .pure hc

lemma agrees (h : P.Follows i j) (hP : P.Closed) : P.Agrees i j :=
  ⟨h.eval, fun r hr henv => h.execAll (hP r hr) henv⟩

lemma begin (h : P.Follows i j) (henv : P.Admits env) (start : Option (ForStart Depth)) :
    P.Obeys (i.begin env start) (j.begin env start) fun _ => True := by
  cases start with
  | none => exact .pure trivial
  | some start => exact .bind (h.exec start.toStmt start.brings_toStmt henv) fun _ _ => .pure trivial

/-- **What a form of statement does follows the policy if its parts do.** -/
theorem execStep (h : P.Follows i j) (hP : P.Closed) (henv : P.Admits env) {s : Stmt Depth}
    (hs : s.Brings P.Kind) : P.Obeys (i.execStep env s) (j.execStep env s) P.Gives := by
  have hagrees := h.agrees hP
  by_cases hsimple : s.isSimple = true
  · refine (hagrees.execStep_of_isSimple henv hsimple hs).imp ?_
    rintro c rfl
    exact nofun
  · cases s with
    | block body =>
        exact .bind (.newFrame .empty) fun address haddress => h.execAll hs (henv.cons haddress)
    | branch condition yes no =>
        obtain ⟨hyes, hno⟩ := List.forall_mem_append.mp hs
        refine .bind (hagrees.test henv condition) fun holds _ => ?_
        split
        · exact h.exec yes hyes henv
        · cases no with
          | some s => exact h.exec s hno henv
          | none => exact .pure nofun
    | loop condition body =>
        simp only [Interp.execStep, h.fuel]
        exact .loop (hagrees.test henv condition) (h.exec body hs henv) (.pure trivial) j.fuel
    | forLoop start condition after body =>
        simp only [Interp.execStep, h.fuel]
        refine .bind (.newFrame .empty) fun address haddress => ?_
        have hinner := henv.cons haddress
        refine .bind (h.begin hinner start) fun _ _ => ?_
        exact .loop (hagrees.test hinner condition) (h.exec body hs hinner) (hagrees.advance hinner after)
          j.fuel
    | jump jump keyword => cases jump <;> exact .pure nofun
    | giveBack keyword value =>
        refine .bind (hagrees.evalOption henv value) fun v hv => .pure ?_
        rintro w ⟨⟩
        exact hv
    | _ => exact absurd rfl hsimple

end Follows

end Policy

/-- **Every level of the evaluator follows every policy.** -/
theorem interpAt_follows (hP : P.Closed) (fuel : Nat) : P.Follows (interpAt fuel) (interpAt fuel) := by
  induction fuel with
  | zero => exact ⟨rfl, fun _ _ => .throw _, fun _ _ _ => .throw _⟩
  | succ fuel ih =>
      exact ⟨rfl, fun e henv => (ih.agrees hP).evalStep henv e, fun _ hs henv => ih.execStep hP henv hs⟩

lemma Policy.admits_global (P : Policy) : P.Admits Machine.globalEnv := by
  simpa [Env.Within, Machine.globalEnv] using P.global

/-- Programs follow every policy. -/
theorem Program.run_obeys (hP : P.Closed) (fuel : Nat) {program : Program Depth}
    (h : Stmt.BringsAll P.Kind program) :
    P.Obeys (Program.run fuel program) (Program.run fuel program) fun _ => True := by
  induction program with
  | nil => exact .pure trivial
  | cons s rest ih =>
      obtain ⟨hs, hrest⟩ := List.forall_mem_append.mp h
      exact .bind ((interpAt_follows hP fuel).exec s hs P.admits_global) fun _ _ => ih hrest

/-- Everything may be used, and the machine may change in any way. -/
def Policy.free (S : Signal → Prop) : Policy where
  Allowed _ := True
  Kind _ := True
  Ready _ := True
  Fine _ := True
  Stops := S
  Inv _ := True
  Step _ _ := True
  Cut _ _ _ := True
  ready := ⟨fun _ => ⟨trivial, fun _ _ => trivial⟩, fun _ => trivial⟩
  scalar _ := trivial
  array _ := trivial
  routine := Iff.rfl
  classValue := ⟨fun _ _ _ _ _ => trivial, fun _ => trivial⟩
  object := ⟨fun _ => ⟨trivial, fun _ _ _ _ => trivial⟩, fun _ => trivial⟩
  refl _ := trivial
  trans _ _ := trivial
  cut _ _ := trivial
  cut_trans _ _ := trivial
  global := trivial
  read _ _ _ _ _ := trivial
  put _ _ _ _ := ⟨trivial, trivial⟩
  newFrame _ _ := ⟨trivial, trivial, trivial⟩
  newObject _ := ⟨trivial, trivial, trivial⟩
  quiet _ _ _ _ := ⟨trivial, trivial⟩
  listed _ _ := trivial
  unlisted _ _ := ⟨trivial, trivial⟩
  cut_listed _ := trivial

end KScript

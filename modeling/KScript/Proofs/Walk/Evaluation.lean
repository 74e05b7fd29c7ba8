import KScript.Proofs.Walk.Operations

/-!
# Walks follow the evaluator

The walk through a phrase is put together like its evaluation.  So a walker that follows an evaluator on the
parts of a phrase follows it on the phrase (`Walker.Tracks.evalStep`, `Walker.Tracks.execStep`), and with any
number of levels the walk follows the run (`Walk.tracks`).
-/

namespace KScript

open Run (Agree Gentle)

variable {N : Code} {R : Nat → String → Prop} {env : Env} {w : Walker} {i : Interp}

/-! ## Completions that give no value back -/

namespace Completion

@[simp] lemma carries_normal : Carries N.Holds .normal := fun _ h => by cases h

@[simp] lemma carries_broke : Carries N.Holds .broke := fun _ h => by cases h

@[simp] lemma carries_continued : Carries N.Holds .continued := fun _ h => by cases h

end Completion

/-! ## Walkers -/

namespace Code

/-- The operands of an expression of the code. -/
lemma operand {e operand : Expr Depth} (he : N.Has (.expr e)) (hmem : operand ∈ e.operands) :
    N.Has (.expr operand) := by
  refine N.part he ?_
  simp only [Phrase.parts, Phrase.below, List.map_map]
  exact List.mem_map_of_mem hmem

/-- The phrases of which a statement of the code is made. -/
lemma phrase {s : Stmt Depth} {q : Phrase Depth} (hs : N.Has (.stmt s))
    (hq : q ∈ s.phrases.map (·.2)) : N.Has q := N.part hs hq

/-- The routines that a statement of the code declares. -/
lemma holds {s : Stmt Depth} (hs : N.Has (.stmt s)) : ∀ r ∈ s.ownRoutines, N.Holds r := by
  have hmem {role : Role} {outer : List Construct} {rs : List (Routine (Stmt Depth))}
      {r : Routine (Stmt Depth)} {t : Stmt Depth} (hr : r ∈ rs) (ht : t ∈ r.body) :
      Phrase.stmt t ∈ (Routine.phrases role outer rs).map (·.2) := by
    refine List.mem_map.mpr ⟨(.routine role r.name :: outer, .stmt t), ?_, rfl⟩
    exact List.mem_flatMap.mpr ⟨r, hr, List.mem_map.mpr ⟨t, ht, rfl⟩⟩
  intro r hr t ht
  cases s with
  | routine decl => exact N.phrase hs (hmem hr ht)
  | classDecl name superclass methods statics getters setters =>
      refine N.phrase hs ?_
      simp only [Stmt.ownRoutines, List.mem_append] at hr
      simp only [Stmt.phrases, List.map_append, List.mem_append]
      rcases hr with ((hr | hr) | hr) | hr
      · exact .inl (.inl (.inl (.inr (hmem hr ht))))
      · exact .inl (.inl (.inr (hmem hr ht)))
      · exact .inl (.inr (hmem hr ht))
      · exact .inr (hmem hr ht)
  | _ => cases hr

end Code

/-- On the code, the walker follows the evaluator. -/
structure Walker.Tracks (N : Code) (w : Walker) (i : Interp) : Prop where
  fuel : w.fuel = i.fuel
  eval : ∀ {R : Nat → String → Prop} (env : Env) {e : Expr Depth}, N.Has (.expr e) →
    Walk.Follows N R env (w.eval e) (i.eval env e) (Value.Carries N.Holds)
  exec : ∀ {R : Nat → String → Prop} (env : Env) {s : Stmt Depth}, N.Has (.stmt s) →
    Walk.Follows N R env (w.exec s) (i.exec env s) (Completion.Carries N.Holds)

open Walk (Follows)

namespace Walker.Tracks

lemma evalAll (h : w.Tracks N i) (env : Env) {es : List (Expr Depth)}
    (hes : ∀ e ∈ es, N.Has (.expr e)) :
    Follows N R env (w.evalAll es) (i.evalAll env es) fun vs => ∀ v ∈ vs, v.Carries N.Holds := by
  induction es with
  | nil => exact .pure (by simp)
  | cons e rest ih =>
      obtain ⟨he, hrest⟩ := List.forall_mem_cons.mp hes
      refine .bind (h.eval env he) fun v hv => .bind (ih hrest) fun vs hvs => .pure ?_
      exact List.forall_mem_cons.mpr ⟨hv, hvs⟩

lemma test (h : w.Tracks N i) (env : Env) {e : Expr Depth} (he : N.Has (.expr e)) :
    Follows N R env (w.test e) (i.test env e) fun _ => True :=
  .bind (h.eval env he) fun _ _ => .pure trivial

lemma evalOption (h : w.Tracks N i) (env : Env) {e : Option (Expr Depth)}
    (he : ∀ e' ∈ e, N.Has (.expr e')) :
    Follows N R env (w.evalOption e) (i.evalOption env e) (Value.Carries N.Holds) := by
  cases e with
  | none => exact .pure (by simp)
  | some e => exact h.eval env (he e rfl)

lemma execAll (h : w.Tracks N i) (env : Env) {ss : List (Stmt Depth)}
    (hss : ∀ s ∈ ss, N.Has (.stmt s)) :
    Follows N R env (w.execAll ss) (i.execAll env ss) (Completion.Carries N.Holds) := by
  induction ss with
  | nil => exact .pure (by simp)
  | cons s rest ih =>
      obtain ⟨hs, hrest⟩ := List.forall_mem_cons.mp hss
      refine .bind (h.exec env hs) fun completion hcompletion => ?_
      cases completion with
      | normal => exact ih hrest
      | _ => exact .pure hcompletion

lemma invoke (h : w.Tracks N i) (env : Env) {c : Closure} (hc : N.Holds c.decl) {args : List Value}
    (hargs : ∀ v ∈ args, v.Carries N.Holds) :
    Follows N R env (w.invoke c args) (i.invoke c args) (Value.Carries N.Holds) := by
  have hbindings : (Table.ofList ((c.decl.params.map (·.lexeme)).zip args)).All
      (Value.Carries N.Holds) := .ofList fun e he => hargs e.2 (List.of_mem_zip he).2
  refine .bind (.op (.newFrame hbindings) (.newFrame _)) fun address _ => ?_
  refine .bind (.inside (h.execAll (address :: c.env) hc)) fun completion hcompletion => ?_
  exact .op (Closure.result_agree hcompletion) (c.result_gentle completion)

lemma invokeOn (h : w.Tracks N i) (env : Env) {c : Closure} (hc : N.Holds c.decl) {o : Object}
    (ho : o.cls.Carries N.Holds) {args : List Value} (hargs : ∀ v ∈ args, v.Carries N.Holds) :
    Follows N R env (w.invokeOn c o args) (i.invokeOn c o args) (Value.Carries N.Holds) :=
  .bind (.op (Closure.bind_obeys hc (Value.carries_object.mpr ho)) (c.bind_gentle o)) fun _ hbound =>
    h.invoke env hbound hargs

lemma construct (h : w.Tracks N i) (env : Env) {cls : ClassValue} (hcls : cls.Carries N.Holds)
    {args : List Value} (hargs : ∀ v ∈ args, v.Carries N.Holds) :
    Follows N R env (w.construct cls args) (i.construct cls args) (Value.Carries N.Holds) := by
  refine .bind (.op (.newObject hcls) (.newObject cls)) fun o ho => ?_
  cases hconstructor : cls.constructor? with
  | none => exact .pure ho
  | some c =>
      exact .bind (h.invokeOn env (hcls.method hconstructor) (Value.carries_object.mp ho) hargs) fun _ _ =>
        .pure ho

lemma invokeCallable (h : w.Tracks N i) (env : Env) {callable : Callable}
    (hcallable : callable.Carries N.Holds) {args : List Value}
    (hargs : ∀ v ∈ args, v.Carries N.Holds) (line : Nat) :
    Follows N R env (w.invokeCallable callable args line) (i.invokeCallable callable args line)
      (Value.Carries N.Holds) := by
  cases callable with
  | native n =>
      exact .op (Interp.invokeNative_obeys n args line) (invokeNative_gentle n args line)
  | routine c => exact h.invoke env hcallable hargs
  | classValue cls => exact h.construct env hcallable hargs

lemma call (h : w.Tracks N i) (env : Env) {callee : Value} (hcallee : callee.Carries N.Holds)
    {args : List Value} (hargs : ∀ v ∈ args, v.Carries N.Holds) (line : Nat) :
    Follows N R env (w.call callee args line) (i.call callee args line) (Value.Carries N.Holds) := by
  unfold Walker.call
  cases hcallable : Callable.ofValue? callee with
  | none =>
      simp only [Interp.call, hcallable]
      exact .fail (by simp)
  | some callable =>
      by_cases htakes : Interp.takes callable.arity args.length = true
      · rw [Interp.call_eq i line hcallable htakes]
        simp only [htakes, if_true]
        refine .listed (Q := Value.Carries N.Holds) ?_ fun result hresult => ?_
        · rw [Interp.listedCall_eq]
          exact .bind (.op (callable.begin_agree args line) (callable.begin_gentle args line))
            fun _ _ => h.invokeCallable env (hcallee.callable hcallable) hargs line
        · exact .bind (.op (.note _) (.note _)) fun _ _ => .pure hresult
      · simp only [Interp.call, hcallable, htakes]
        exact .fail (by simp)

end Walker.Tracks

/-! ## Properties -/

namespace Walker.Tracks

lemma readProperty (h : w.Tracks N i) (env : Env) {o : Object} (ho : o.cls.Carries N.Holds)
    (name : Token) (inside : Bool) :
    Follows N R env (w.readProperty o name inside) (i.readProperty o name inside)
      (Value.Carries N.Holds) := by
  have hread : Follows N R env (Walk.act fun _ => o.read name) (o.read name)
      (Value.Carries N.Holds) := .op (Object.read_obeys (Value.carries_object.mpr ho) name) (o.read_gentle name)
  unfold Walker.readProperty Interp.readProperty
  cases inside with
  | true => exact hread
  | false =>
      cases hgetter : o.cls.getter? name.lexeme with
      | some getter => exact h.invokeOn env (ho.getter hgetter) ho (by simp)
      | none =>
          cases o.cls.setter? name.lexeme with
          | some setter => exact .fail (by simp)
          | none => exact hread

lemma getProperty (h : w.Tracks N i) (env : Env) {target : Value} (htarget : target.Carries N.Holds)
    (name : Token) (inside : Bool) :
    Follows N R env (w.getProperty target name inside) (i.getProperty target name inside)
      (Value.Carries N.Holds) := by
  cases target with
  | object o => exact h.readProperty env (Value.carries_object.mp htarget) name inside
  | classValue cls =>
      simp only [Walker.getProperty, Interp.getProperty]
      cases hmethod : cls.static? name.lexeme with
      | some method =>
          exact .pure (Value.carries_routine.mpr
            ((Value.carries_classValue.mp htarget).static hmethod))
      | none => exact .fail (by simp)
  | _ => exact .fail (by simp)

lemma writeProperty (h : w.Tracks N i) (env : Env) {object value : Expr Depth} {name : Token}
    {inside : Bool} (hnode : N.Has (.expr (.set object name value inside))) {o : Object}
    (ho : o.cls.Carries N.Holds) {v : Value} (hv : v.Carries N.Holds) :
    Follows N R env (w.writeProperty (.set object name value inside) o name v inside)
      (i.writeProperty o name v inside) fun _ => True := by
  have hstore : Follows N R env (Walker.store (.set object name value inside) o name v inside)
      (o.write name v inside) fun _ => True := Object.store_follows hnode hv
  unfold Walker.writeProperty Interp.writeProperty
  cases inside with
  | true => exact hstore
  | false =>
      cases hsetter : o.cls.setter? name.lexeme with
      | some setter =>
          exact .bind (h.invokeOn env (ho.setter hsetter) ho (by simpa using hv)) fun _ _ =>
            .pure trivial
      | none =>
          cases o.cls.getter? name.lexeme with
          | some getter => exact .fail (by simp)
          | none => exact hstore

/-! ## Expressions -/

/-- **A walk through an expression follows its evaluation.** -/
theorem evalStep (h : w.Tracks N i) (env : Env) {e : Expr Depth} (he : N.Has (.expr e)) :
    Follows N (Phrase.expr e).Lacks env (w.evalStep e) (i.evalStep env e)
      (Value.Carries N.Holds) := by
  have hparts : ∀ p ∈ e.operands, N.Has (.expr p) := fun p hp => Code.operand he hp
  have hlacks {site : Site} {ref : Reference Depth} (href : e.reference? = some (site, ref))
      (line : Nat) (name : String) (h : ref.Lacks line name) : (Phrase.expr e).Lacks line name :=
    ⟨site, ref, href, h⟩
  cases e with
  | literal value => exact .pure (by simp)
  | array items =>
      exact .bind (h.evalAll env hparts) fun vs hvs => .bind (.op .newIdent .newIdent) fun _ _ =>
        .pure (Value.carries_array.mpr hvs)
  | grouping inner => exact h.eval env (hparts inner (by simp [Expr.operands]))
  | unary op operand =>
      refine .bind (h.eval env (hparts operand (by simp [Expr.operands]))) fun v _ => ?_
      refine .op (.orFail _ fun x hx => ?_) (.orFail _ (Operator.unary_ne op v))
      obtain ⟨literal, rfl⟩ := Operator.unary_scalar hx
      simp
  | binary left op right =>
      refine .bind (h.eval env (hparts left (by simp [Expr.operands]))) fun a _ => ?_
      refine .bind (h.eval env (hparts right (by simp [Expr.operands]))) fun b _ => ?_
      refine .op (.orFail _ fun x hx => ?_) (.orFail _ (Operator.binary_ne op a b))
      obtain ⟨literal, rfl⟩ := Operator.binary_scalar hx
      simp
  | logical left op right =>
      refine .bind (h.eval env (hparts left (by simp [Expr.operands]))) fun v hv => ?_
      cases Interp.settles op v with
      | true => exact .pure hv
      | false => exact h.eval env (hparts right (by simp [Expr.operands]))
  | conditional condition yes no =>
      refine .bind (h.test env (hparts condition (by simp [Expr.operands]))) fun holds _ => ?_
      cases holds with
      | true => exact h.eval env (hparts yes (by simp [Expr.operands]))
      | false => exact h.eval env (hparts no (by simp [Expr.operands]))
  | «variable» ref => exact .act (ref.read_obeys (.carrying env)) (Reference.read_gentle (hlacks rfl))
  | assign ref value =>
      refine .bind (h.eval env (hparts value (by simp [Expr.operands]))) fun v hv => ?_
      exact .bind (.act (ref.write_obeys (.carrying env) hv) (Reference.write_gentle (hlacks rfl) v)) fun _ _ =>
        .pure hv
  | step direction ref =>
      exact .act (ref.step_obeys (.carrying env) direction .expression)
        (Reference.step_gentle (hlacks rfl) direction .expression)
  | call callee paren args =>
      refine .bind (h.eval env (hparts callee (by simp [Expr.operands]))) fun target htarget => ?_
      refine .bind (h.evalAll env fun e he => hparts e (by simp [Expr.operands, he])) fun vs hvs => ?_
      exact h.call env htarget hvs paren.line
  | get object name inside =>
      exact .bind (h.eval env (hparts object (by simp [Expr.operands]))) fun target htarget =>
        h.getProperty env htarget name inside
  | set object name value inside =>
      refine .bind (h.eval env (hparts object (by simp [Expr.operands]))) fun target htarget => ?_
      cases target with
      | object o =>
          refine .bind (h.eval env (hparts value (by simp [Expr.operands]))) fun v hv => ?_
          exact .bind (h.writeProperty env he (Value.carries_object.mp htarget) hv) fun _ _ =>
            .pure hv
      | _ => exact .fail (by simp)
  | receiver ref => exact .act (ref.read_obeys (.carrying env)) (Reference.read_gentle (hlacks rfl))
  | inherited ref method =>
      exact .act (ref.inherited_obeys method (.carrying env)) (ref.inherited_gentle method)

end Walker.Tracks

/-! ## Classes -/

namespace Walker.Tracks

lemma superclass (h : w.Tracks N i) (env : Env) {ref : Option (Reference Depth)}
    (href : ∀ r ∈ ref, N.Has (.expr (.variable r))) :
    Follows N R env (w.superclass ref) (i.superclass env ref)
      fun parent => ∀ cls ∈ parent, cls.Carries N.Holds := by
  cases ref with
  | none => exact .pure (by simp)
  | some ref =>
      refine .bind (h.eval env (href ref rfl)) fun v hv => ?_
      cases v with
      | classValue cls =>
          refine .pure ?_
          rintro cls ⟨⟩
          exact Value.carries_classValue.mp hv
      | _ => exact .fail (by simp)

lemma declareClass (h : w.Tracks N i) (env : Env) {name : Token}
    {superclass : Option (Reference Depth)}
    {methods statics getters setters : List (Routine (Stmt Depth))}
    (hs : N.Has (.stmt (.classDecl name superclass methods statics getters setters)))
    (hR : R name.line name.lexeme) :
    Follows N R env (w.declareClass name superclass methods statics getters setters)
      (i.declareClass env name superclass methods statics getters setters) fun _ => True := by
  rw [Interp.declareClass_eq]
  have hsuper : ∀ ref ∈ superclass, N.Has (.expr (.variable ref)) := by
    intro ref href
    refine N.phrase hs ?_
    simp only [Stmt.phrases, List.map_append, List.mem_append]
    exact .inl (.inl (.inl (.inl (by simpa using href))))
  refine .bind (.act (.define (.carrying env) _ (Value.carries_scalar _)) (.define env _ _)) fun _ _ => ?_
  refine .bind (h.superclass env hsuper) fun parent hparent => ?_
  refine .bind (.act (classEnv_obeys (.carrying env) hparent) (classEnv_gentle env parent)) fun inner _ => ?_
  refine .bind (.inside (.act (layer_agree (N.holds hs)) layer_gentle)) fun own hown => ?_
  refine .act (bindClass_agree (List.forall_mem_cons.mpr ⟨hown, ?_⟩)) (bindClass_gentle hR _)
  cases parent with
  | none => simp
  | some cls => exact hparent cls rfl

end Walker.Tracks

/-! ## Statements -/

namespace Walker.Tracks

/-- A loop, turn by turn. -/
lemma loop {test : Walk Bool} {test' : Run Bool} {body : Walk Completion} {body' : Run Completion}
    {after : Walk Unit} {after' : Run Unit} (htest : Follows N R env test test' fun _ => True)
    (hbody : Follows N R env body body' (Completion.Carries N.Holds))
    (hafter : Follows N R env after after' fun _ => True) (fuel : Nat) :
    Follows N R env (Walk.loop test body after fuel) (Run.loop test' body' after' fuel)
      (Completion.Carries N.Holds) := by
  induction fuel with
  | zero => exact .op (.throw _) (.throw (by simp))
  | succ fuel ih =>
      refine .bind htest fun holds _ => ?_
      cases holds with
      | false => exact .pure (by simp)
      | true =>
          refine .bind hbody fun completion hcompletion => ?_
          cases completion with
          | broke => exact .pure (by simp)
          | returned v => exact .pure hcompletion
          | _ => exact .bind hafter fun _ _ => ih

lemma advance (h : w.Tracks N i) (env : Env) {after : Option (Expr Depth)}
    (hafter : ∀ e ∈ after, N.Has (.expr e)) :
    Follows N R env (w.advance after) (i.advance env after) fun _ => True :=
  .bind (h.evalOption env hafter) fun _ _ => .pure trivial

lemma begin (h : w.Tracks N i) (env : Env) {start : Option (ForStart Depth)}
    (hstart : ∀ s ∈ start, N.Has (.stmt s.toStmt)) :
    Follows N R env (w.begin start) (i.begin env start) fun _ => True := by
  cases start with
  | none => exact .pure trivial
  | some start => exact .bind (h.exec env (hstart start rfl)) fun _ _ => .pure trivial

/-- A walk in a new frame on top of the environment in force. -/
lemma enter {α : Type} {Q : α → Prop} {x : Walk α} {y : Env → Run α}
    (h : ∀ address, Follows N R (address :: env) x (y (address :: env)) Q) :
    Follows N R env (do Walk.inside (← Walker.enter) x)
      (do
        let address ← Run.newFrame .empty
        y (address :: env)) Q := by
  have hbind : (do Walk.inside (← Walker.enter) x)
      = (do
        let address ← Walk.act fun _ => Run.newFrame .empty
        Walk.inside (address :: (← get).env) x) := by
    simp only [Walker.enter, bind_assoc, pure_bind]
  rw [hbind]
  refine .bind (.op (.newFrame .empty) (.newFrame _)) fun address _ m past hm => ?_
  exact (Follows.inside (h address)) m past hm

/-- **A walk through a statement follows its execution.** -/
theorem execStep (h : w.Tracks N i) (env : Env) {s : Stmt Depth} (hs : N.Has (.stmt s)) :
    Follows N (Phrase.stmt s).Lacks env (w.execStep s) (i.execStep env s)
      (Completion.Carries N.Holds) := by
  have hparts {q : Phrase Depth} (hq : q ∈ s.phrases.map (·.2)) : N.Has q := N.phrase hs hq
  cases s with
  | expr e => exact .bind (h.eval env (hparts (by simp [Stmt.phrases]))) fun _ _ => .pure (by simp)
  | echo e =>
      refine .bind (h.eval env (hparts (by simp [Stmt.phrases]))) fun v _ => ?_
      exact .bind (.op (.write _) (.write _)) fun _ _ => .pure (by simp)
  | var name value =>
      have hvalue : ∀ e ∈ value, N.Has (.expr e) := fun e he => hparts (by simpa [Stmt.phrases] using he)
      refine .bind (h.evalOption env hvalue) fun v hv => ?_
      exact .bind (.act (.define (.carrying env) _ hv) (.define env _ _)) fun _ _ => .pure (by simp)
  | block body =>
      have hbody : ∀ t ∈ body, N.Has (.stmt t) := fun t ht => hparts (by simpa [Stmt.phrases] using ht)
      exact enter (y := fun env => i.execAll env body) fun address => h.execAll _ hbody
  | exit keyword code =>
      refine .bind (h.eval env (hparts (by simp [Stmt.phrases]))) fun v _ => ?_
      exact .op (Interp.exitWith_obeys keyword.line v) (exitWith_gentle keyword.line v)
  | branch condition yes no =>
      refine .bind (h.test env (hparts (by simp [Stmt.phrases]))) fun holds _ => ?_
      cases holds with
      | true => exact h.exec env (hparts (by simp [Stmt.phrases]))
      | false =>
          cases no with
          | none => exact .pure (by simp)
          | some no => exact h.exec env (hparts (by simp [Stmt.phrases]))
  | loop condition body =>
      simp only [Walker.execStep, Interp.execStep, h.fuel]
      exact loop (h.test env (hparts (by simp [Stmt.phrases])))
        (h.exec env (hparts (by simp [Stmt.phrases]))) (.pure trivial) i.fuel
  | forLoop start condition after body =>
      have hstart : ∀ t ∈ start, N.Has (.stmt t.toStmt) := fun t ht =>
        hparts (by simp [Stmt.phrases, Option.mem_def.mp ht])
      have hafter : ∀ e ∈ after, N.Has (.expr e) := fun e he =>
        hparts (by simp [Stmt.phrases, Option.mem_def.mp he])
      simp only [Walker.execStep, Interp.execStep, h.fuel]
      refine enter (y := fun env => do
        i.begin env start
        Run.loop (i.test env condition) (i.exec env body) (i.advance env after) i.fuel) fun address => ?_
      refine .bind (h.begin _ hstart) fun _ _ => ?_
      exact loop (h.test _ (hparts (by simp [Stmt.phrases])))
        (h.exec _ (hparts (by simp [Stmt.phrases]))) (h.advance _ hafter) i.fuel
  | step direction ref =>
      have hlacks (line : Nat) (name : String) (hline : ref.Lacks line name) :
          (Phrase.stmt (.step direction ref)).Lacks line name := ⟨_, ref, rfl, hline⟩
      exact .bind (.act (ref.step_obeys (.carrying env) direction .statement)
        (Reference.step_gentle hlacks direction .statement)) fun _ _ => .pure (by simp)
  | jump jump keyword => cases jump <;> exact .pure (by simp)
  | routine decl =>
      have hdecl : N.Holds decl := N.holds hs decl List.mem_cons_self
      have hbind : i.execStep env (.routine decl) = (do bindRoutine decl env; return .normal) := by
        simp only [Interp.execStep, bindRoutine, bind_assoc]
      rw [hbind]
      exact .bind (.act (bindRoutine_agree hdecl) (bindRoutine_gentle decl)) fun _ _ => .pure (by simp)
  | giveBack keyword value =>
      have hvalue : ∀ e ∈ value, N.Has (.expr e) := fun e he => hparts (by simpa [Stmt.phrases] using he)
      refine .bind (h.evalOption env hvalue) fun v hv => .pure ?_
      rintro _ ⟨⟩
      exact hv
  | classDecl name superclass methods statics getters setters =>
      exact .bind (h.declareClass env hs ⟨rfl, rfl⟩) fun _ _ => .pure (by simp)

end Walker.Tracks

/-! ## All levels -/

namespace Walk

/-- **With any number of levels, walks follow the evaluator.** -/
theorem tracks (N : Code) (fuel : Nat) : (walkerAt fuel).Tracks N (interpAt fuel) := by
  induction fuel with
  | zero =>
      exact ⟨rfl, fun _ _ _ => .op (.throw _) (.throw (by simp)),
        fun _ _ _ => .op (.throw _) (.throw (by simp))⟩
  | succ fuel ih =>
      exact ⟨rfl, fun env _ he => .reached he (ih.evalStep env he),
        fun env _ hs => .reached hs (ih.execStep env hs)⟩

/-- A walk through a program follows its run. -/
lemma run_follows (fuel : Nat) {program : Program Depth} (h : ∀ s ∈ program, N.Has (.stmt s)) :
    Follows N R Machine.globalEnv (run fuel program) (Program.run fuel program) fun _ => True := by
  induction program with
  | nil => exact .pure trivial
  | cons s rest ih =>
      obtain ⟨hs, hrest⟩ := List.forall_mem_cons.mp h
      exact .bind ((tracks N fuel).exec Machine.globalEnv hs) fun _ _ => ih hrest

end Walk

end KScript

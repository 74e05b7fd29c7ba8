import KScript.Proofs.Blame.Guards
import KScript.Proofs.Walk.Operations

/-!
# Where routines are run

A phrase runs the body of a routine when it calls one, makes an object whose class says how, or reads or
writes a property that has a get or set method.  `Begun.approach` does what a phrase does before that, and
tells the routine and its arguments.  Bodies are run there and nowhere else (`Begun.accounts`).
-/

namespace KScript

/-- A routine that is about to be run, with its arguments. -/
abbrev Invocation := Closure × List Value

/-- What is called, up to where a routine is run. -/
def Callable.approach (args : List Value) : Callable → Run (Option Invocation)
  | .native _ => return none
  | .routine c => return some (c, args)
  | .classValue cls => do
    let object ← Run.newObject cls
    match cls.constructor? with
    | none => return none
    | some c => return some (← c.bind object, args)

/-- An accessor of a property, if it has one and the property is not meant itself, up to where it is run. -/
def Object.approach (object : Object) (accessor : Option Closure) (inside : Bool) (args : List Value) :
    Run (Option Invocation) :=
  match inside, accessor with
  | false, some c => return some (← c.bind object, args)
  | _, _ => return none

namespace Begun

/-- Does what the phrase does up to where it runs a routine. -/
def approach (x : Begun) : Run (Option Invocation) :=
  match x.phrase with
  | .expr (.call callee paren args) => do
    let target ← evalAt x.level x.env callee
    let values ← (interpAt x.level).evalAll x.env args
    match Callable.ofValue? target with
    | none => return none
    | some callable =>
      if Interp.takes callable.arity values.length then
        Run.pushCall ⟨callable.name, values⟩
        callable.begin values paren.line
        callable.approach values
      else return none
  | .expr (.get object name inside) => do
    match ← evalAt x.level x.env object with
    | .object object => object.approach (object.cls.getter? name.lexeme) inside []
    | _ => return none
  | .expr (.set object name value inside) => do
    match ← evalAt x.level x.env object with
    | .object object => do
      let v ← evalAt x.level x.env value
      object.approach (object.cls.setter? name.lexeme) inside [v]
    | _ => return none
  | _ => return none

/-- The phrase runs the routine on the arguments, from that machine on. -/
def Invokes (x : Begun) (c : Closure) (args : List Value) (next : Machine) : Prop :=
  x.approach x.machine = .ok (some (c, args)) next

end Begun

/-! ## What a run makes of a routine -/

variable {α β : Type} {i : Interp} {m : Machine}

/-- The computation, which may run bodies by `exec`, runs the routine that `a` comes to, or else none. -/
def Leads (i : Interp) (a : Run (Option Invocation)) (f : (Env → Stmt Depth → Run Completion) → Run α)
    (m : Machine) : Prop :=
  match a m with
  | .ok (some (c, args)) next =>
    ∃ rest : Value → Run α, ∀ exec, f exec m = (Interp.invoke { i with exec } c args >>= rest) next
  | _ => ∀ exec, f exec m = f i.exec m

namespace Leads

variable {a : Run (Option Invocation)} {f : (Env → Stmt Depth → Run Completion) → Run α}

lemma none (h : ∀ exec, f exec m = f i.exec m) : Leads i (return Option.none) f m := h

lemma invoke (c : Closure) (args : List Value) :
    Leads i (return some (c, args)) (fun exec => Interp.invoke { i with exec } c args) m :=
  ⟨pure, fun _ => by rw [bind_pure]⟩

/-- What comes before the routine. -/
lemma bind (x : Run β) {a : β → Run (Option Invocation)}
    {f : (Env → Stmt Depth → Run Completion) → β → Run α}
    (h : ∀ b next, Leads i (a b) (fun exec => f exec b) next) :
    Leads i (x >>= a) (fun exec => x >>= f exec) m := by
  cases hx : x m with
  | ok b next =>
      simp only [Leads, Run.bind_of_ok hx]
      exact h b next
  | error s next =>
      simp only [Leads, Run.bind_of_error hx]
      exact fun _ => trivial

/-- What comes after it. -/
lemma andThen (h : Leads i a f m) (g : α → Run β) : Leads i a (fun exec => f exec >>= g) m := by
  unfold Leads at h ⊢
  split at h
  · obtain ⟨rest, hrest⟩ := h
    refine ⟨fun v => rest v >>= g, fun exec => ?_⟩
    rw [← bind_assoc]
    simp only [Bind.bind, EStateM.bind]
    have heq := hrest exec
    simp only [Bind.bind, EStateM.bind] at heq
    rw [heq]
  · intro exec
    simp only [Bind.bind, EStateM.bind, h exec]

lemma invokeOn (c : Closure) (object : Object) (args : List Value) :
    Leads i (do return some (← c.bind object, args))
      (fun exec => Interp.invokeOn { i with exec } c object args) m :=
  .bind _ fun bound _ => .invoke bound args

lemma invokeCallable (callable : Callable) (args : List Value) (line : Nat) :
    Leads i (callable.approach args)
      (fun exec => Interp.invokeCallable { i with exec } callable args line) m := by
  cases callable with
  | native n => exact .none fun _ => rfl
  | routine c => exact .invoke c args
  | classValue cls =>
      refine .bind _ fun object next => ?_
      cases cls.constructor? with
      | none => exact .none fun _ => rfl
      | some c => exact (invokeOn c object args).andThen _

lemma readProperty (object : Object) (name : Token) (inside : Bool) :
    Leads i (object.approach (object.cls.getter? name.lexeme) inside [])
      (fun exec => Interp.readProperty { i with exec } object name inside) m := by
  cases inside with
  | true => exact .none fun _ => rfl
  | false =>
      cases hgetter : object.cls.getter? name.lexeme with
      | some c =>
          simp only [Interp.readProperty, hgetter]
          exact .invokeOn c object []
      | none =>
          refine .none fun exec => ?_
          simp only [Interp.readProperty, hgetter]
          cases object.cls.setter? name.lexeme <;> rfl

lemma writeProperty (object : Object) (name : Token) (v : Value) (inside : Bool) :
    Leads i (object.approach (object.cls.setter? name.lexeme) inside [v])
      (fun exec => Interp.writeProperty { i with exec } object name v inside) m := by
  cases inside with
  | true => exact .none fun _ => rfl
  | false =>
      cases hsetter : object.cls.setter? name.lexeme with
      | some c =>
          simp only [Interp.writeProperty, hsetter]
          exact (invokeOn c object [v]).andThen _
      | none =>
          refine .none fun exec => ?_
          simp only [Interp.writeProperty, hsetter]
          cases object.cls.getter? name.lexeme <;> rfl

end Leads

/-- Expressions in a row run no bodies themselves. -/
lemma Interp.evalAll_with (i : Interp) (exec : Env → Stmt Depth → Run Completion) (env : Env)
    (es : List (Expr Depth)) : Interp.evalAll { i with exec } env es = i.evalAll env es := by
  induction es with
  | nil => rfl
  | cons e rest ih => simp only [evalAll, ih]

lemma Begun.leads (x : Begun) {e : Expr Depth} (he : x.phrase = .expr e) :
    Leads (interpAt x.level) x.approach
      (fun exec => Interp.evalStep { interpAt x.level with exec } x.env e) x.machine := by
  obtain ⟨level, env, phrase, machine⟩ := x
  subst he
  cases e with
  | call callee paren args =>
      simp only [Interp.evalStep, Interp.evalAll_with]
      refine .bind _ fun target _ => .bind _ fun values _ => ?_
      cases hcallable : Callable.ofValue? target with
      | none =>
          simp only [Interp.call, hcallable]
          exact .none fun _ => rfl
      | some callable =>
          by_cases htakes : Interp.takes callable.arity values.length = true
          · simp only [Interp.call_eq _ paren.line hcallable htakes, Interp.listedCall_eq, htakes, if_true]
            refine .bind _ fun _ _ => .andThen ?_ _
            exact .bind _ fun _ _ => .invokeCallable callable values paren.line
          · simp only [Interp.call, hcallable, htakes]
            exact .none fun _ => rfl
  | get object name inside =>
      refine .bind _ fun target _ => ?_
      cases target with
      | object object => exact .readProperty object name inside
      | _ => exact .none fun _ => rfl
  | set object name value inside =>
      refine .bind _ fun target _ => ?_
      cases target with
      | object object => exact .bind _ fun v _ => (Leads.writeProperty object name v inside).andThen _
      | _ => exact .none fun _ => rfl
  | array items =>
      simp only [Interp.evalStep, Interp.evalAll_with]
      exact .none fun _ => rfl
  | _ => exact .none fun _ => rfl

/-- The expression runs the body of a routine where it invokes one, and nowhere else, whatever it is that
executes statements. -/
structure Begun.Accounts (x : Begun) (e : Expr Depth) : Prop where
  /-- Nothing comes before the routine but the approach, and nothing after it but what becomes of its value. -/
  invoked : ∀ c args next, x.Invokes c args next → ∃ rest : Value → Run Value, ∀ exec,
    Interp.evalStep { interpAt x.level with exec } x.env e x.machine
      = (Interp.invoke { interpAt x.level with exec } c args >>= rest) next
  idle : (∀ c args next, ¬x.Invokes c args next) → ∀ exec,
    Interp.evalStep { interpAt x.level with exec } x.env e x.machine = evalAt (x.level + 1) x.env e x.machine

/-- **Bodies are run by the invocations of a phrase.** -/
theorem Begun.accounts (x : Begun) {e : Expr Depth} (he : x.phrase = .expr e) : x.Accounts e := by
  have hleads := x.leads he
  unfold Leads at hleads
  split at hleads
  · next c args next happroach =>
      refine ⟨fun c' args' next' hinvokes => ?_, fun hnone => absurd happroach (hnone c args next)⟩
      cases happroach.symm.trans hinvokes
      exact hleads
  · next hnone => exact ⟨fun c args next hinvokes => absurd hinvokes (hnone c args next), fun _ => hleads⟩

/-! ## Calls with a wrong count -/

/-- The expressions have the values, one after the other from the first on. -/
inductive Yields (level : Nat) (env : Env) : List (Expr Depth) → Machine → List Value → Machine → Prop where
  | nil (m : Machine) : Yields level env [] m [] m
  | cons {e : Expr Depth} {rest : List (Expr Depth)} {v : Value} {vs : List Value} {m next last : Machine}
      (he : evalAt level env e m = .ok v next) (hrest : Yields level env rest next vs last) :
      Yields level env (e :: rest) m (v :: vs) last

lemma Yields.evalAll {level : Nat} {env : Env} {es : List (Expr Depth)} {vs : List Value} {last : Machine}
    (h : Yields level env es m vs last) : (interpAt level).evalAll env es m = .ok vs last := by
  induction h with
  | nil m => rfl
  | cons he _ ih => exact (Run.bind_of_ok he).trans ((Run.bind_of_ok ih).trans rfl)

/-- A call that does not take its arguments fails once these have their values. -/
lemma evalAt_call_of_count {level : Nat} {env : Env} {callee : Expr Depth} {args : List (Expr Depth)}
    {target : Value} {values : List Value} {next last : Machine} {callable : Callable} {count : Nat}
    (paren : Token) (hcallee : evalAt level env callee m = .ok target next)
    (hargs : Yields level env args next values last) (hcallable : Callable.ofValue? target = some callable)
    (harity : callable.arity = some count) (hcount : count ≠ values.length) :
    evalAt (level + 1) env (.call callee paren args) m
      = .error (.failure paren.line (.wrongCount count values.length)) last := by
  have htakes : Interp.takes (some count) values.length = false := by simp [Interp.takes, hcount]
  refine (Run.bind_of_ok hcallee).trans ((Run.bind_of_ok hargs.evalAll).trans ?_)
  simp only [Interp.call, hcallable, harity, htakes]
  rfl

end KScript

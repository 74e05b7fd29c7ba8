import KScript.Proofs.Code.Carried
import KScript.Proofs.Walk.Evaluator

/-!
# Walks that follow a run

`Walk.Follows` compares a walk with a run of the plain evaluator from the same machine.  They end alike, and
what the walk keeps besides tells about both:

- the register is as it was before;
- the calls are as they were before, with those in front of them that a signal has cut short;
- the footprints are those of the code that the machine carries;
- objects have kept their fields, and for every field that is new some `.` inside a class has left the
  footprint of writing it;
- a variable that is not there was missed by a phrase that has been reached.

There is a rule for each way to put walks together.
-/

namespace KScript

open Run (Agree)

/-- Phrases that a walk may reach, with the phrases of which they are made. -/
structure Code where
  Has : Phrase Depth → Prop
  part : ∀ {p q : Phrase Depth}, Has p → q ∈ p.parts → Has q

namespace Code

/-- The body of the routine is of the code. -/
def Holds (N : Code) (r : Routine (Stmt Depth)) : Prop := ∀ s ∈ r.body, N.Has (.stmt s)

/-- All code. -/
def all : Code := ⟨fun _ => True, fun _ _ => trivial⟩

end Code

/-- The reference is looked for in the global frame, and a failure to find it is on that line. -/
def Reference.Lacks (ref : Reference Depth) (line : Nat) (name : String) : Prop :=
  ref.bound = none ∧ ref.name.line = line ∧ ref.name.lexeme = name

/-- The phrase itself may fail on that line because the variable is not there. -/
def Phrase.Lacks : Phrase Depth → Nat → String → Prop
  | .expr e, line, name => ∃ site ref, e.reference? = some (site, ref) ∧ ref.Lacks line name
  | .stmt (.classDecl token _ _ _ _ _), line, name => token.line = line ∧ token.lexeme = name
  | .stmt s, line, name => ∃ site ref, s.reference? = some (site, ref) ∧ ref.Lacks line name

namespace Footprint

/-- The footprint is one of the code. -/
def Of (N : Code) : Footprint → Prop
  | reached p => N.Has p
  | wrote node _ => N.Has (.expr node)

/-- The footprint of writing that field of that object inside a class. -/
def Adds (ident : Nat) (field : String) : Footprint → Prop
  | wrote (.set _ name _ true) object => object.ident = ident ∧ name.lexeme = field
  | _ => False

end Footprint

/-- From one scene a walk has come to the other and left the footprints on its way. -/
structure Scene.Went (N : Code) (s : Scene) (new : List Footprint) (t : Scene) : Prop where
  env : t.env = s.env
  past : t.past = new ++ s.past
  code : ∀ f ∈ new, f.Of N
  fields : ∀ ident, ∃ added, t.machine.fieldNames ident = s.machine.fieldNames ident ++ added
    ∧ ∀ field ∈ added, ∃ f ∈ new, f.Adds ident field

namespace Scene.Went

variable {N : Code} {s t u : Scene} {new more : List Footprint}

/-- Nothing but the machine has changed, and the objects have the fields they had. -/
lemma still {env : Env} {m n : Machine} {past : List Footprint}
    (h : ∀ ident, n.fieldNames ident = m.fieldNames ident) :
    Went N ⟨env, m, past⟩ [] ⟨env, n, past⟩ where
  env := rfl
  past := rfl
  code := nofun
  fields ident := ⟨[], by simp [h], nofun⟩

lemma trans (h : Went N s new t) (h' : Went N t more u) : Went N s (more ++ new) u where
  env := h'.env.trans h.env
  past := by rw [h'.past, h.past, List.append_assoc]
  code := List.forall_mem_append.mpr ⟨h'.code, h.code⟩
  fields ident := by
    obtain ⟨added, hadded, hnew⟩ := h.fields ident
    obtain ⟨added', hadded', hmore⟩ := h'.fields ident
    refine ⟨added ++ added', by rw [hadded', hadded, List.append_assoc], fun field hfield => ?_⟩
    rcases List.mem_append.mp hfield with hfield | hfield
    · obtain ⟨f, hf, hadds⟩ := hnew field hfield
      exact ⟨f, List.mem_append_right _ hf, hadds⟩
    · obtain ⟨f, hf, hadds⟩ := hmore field hfield
      exact ⟨f, List.mem_append_left _ hf, hadds⟩

end Scene.Went

namespace Walk

variable {α : Type}

/-- What is missed is missed by one of the footprints. -/
def Missed (new : List Footprint) (line : Nat) (name : String) : Prop :=
  ∃ p, .reached p ∈ new ∧ p.Lacks line name

/-- From the scene, the walk and the run have ended alike.  `R` is what may be missed without a footprint
that tells so, and `Q` is a property of results. -/
inductive Tells (N : Code) (R : Nat → String → Prop) (s : Scene) (Q : α → Prop) :
    EStateM.Result Halt Scene α → EStateM.Result Signal Machine α → Prop where
  | ok {a : α} {t : Scene} {new : List Footprint} (went : s.Went N new t)
      (calls : t.machine.calls = s.machine.calls) (carries : t.machine.Carries N.Holds)
      (result : Q a) : Tells N R s Q (.ok a t) (.ok a t.machine)
  | error {halt : Halt} {t : Scene} {new : List Footprint} (went : s.Went N new t)
      (calls : t.machine.calls = halt.opened ++ s.machine.calls)
      (carries : t.machine.Carries N.Holds)
      (missed : ∀ line name, halt.signal = .failure line (.undefinedVariable name) →
        R line name ∨ Missed new line name) :
      Tells N R s Q (.error halt t) (.error halt.signal t.machine)

/-- In the environment, the walk follows the run from every machine that carries the code. -/
def Follows (N : Code) (R : Nat → String → Prop) (env : Env) (x : Walk α) (y : Run α)
    (Q : α → Prop) : Prop :=
  ∀ m past, m.Carries N.Holds → Tells N R ⟨env, m, past⟩ Q (x ⟨env, m, past⟩) (y m)

variable {N : Code} {R : Nat → String → Prop} {Q : α → Prop}

/-- What is told from a scene on the way is told from the start. -/
lemma Tells.after {s t : Scene} {new : List Footprint} {r : EStateM.Result Halt Scene α}
    {r' : EStateM.Result Signal Machine α} (hwent : s.Went N new t)
    (hcalls : t.machine.calls = s.machine.calls) (h : Tells N R t Q r r') :
    Tells N R s Q r r' := by
  cases h with
  | ok went calls carries result =>
      exact .ok (hwent.trans went) (calls.trans hcalls) carries result
  | error went calls carries missed =>
      refine .error (hwent.trans went) (by rw [calls, hcalls]) carries fun line name heq => ?_
      refine (missed line name heq).imp id fun ⟨p, hp, hlacks⟩ => ?_
      exact ⟨p, List.mem_append_left _ hp, hlacks⟩

end Walk

/-! ## Operations of the machine -/

/-- No call has begun or ended, and the objects have the fields they had. -/
structure Machine.Still (m n : Machine) : Prop where
  calls : n.calls = m.calls
  fields : ∀ ident, n.fieldNames ident = m.fieldNames ident

/-- The operation neither begins nor ends a call and adds no field; `R` is what it may miss. -/
def Run.Gentle {α : Type} (R : Nat → String → Prop) (x : Run α) : Prop :=
  ∀ m, match x m with
    | .ok _ n => m.Still n
    | .error signal n =>
      m.Still n ∧ ∀ line name, signal = .failure line (.undefinedVariable name) → R line name

namespace Machine.Still

variable {m n k : Machine}

lemma refl (m : Machine) : m.Still m := ⟨rfl, fun _ => rfl⟩

lemma trans (h : m.Still n) (h' : n.Still k) : m.Still k :=
  ⟨h'.calls.trans h.calls, fun ident => (h'.fields ident).trans (h.fields ident)⟩

lemma of_eq (hcalls : n.calls = m.calls) (hfields : n.fields = m.fields) : m.Still n :=
  ⟨hcalls, fun ident => by simp [fieldNames, fieldsOf, hfields]⟩

end Machine.Still

namespace Run.Gentle

variable {α β : Type} {R : Nat → String → Prop} {x : Run α} {f : α → Run β}

lemma pure (a : α) : Gentle R (pure a : Run α) := fun m => .refl m

/-- A signal other than a variable that is not there. -/
lemma throw {signal : Signal} (h : ∀ line name, signal ≠ .failure line (.undefinedVariable name)) :
    Gentle R (throw signal : Run α) :=
  fun m => ⟨.refl m, fun line name heq => absurd heq (h line name)⟩

lemma fail {line : Nat} {cause : Cause} (h : ∀ name, cause ≠ .undefinedVariable name) :
    Gentle R (Run.fail line cause : Run α) := by
  refine throw fun line name heq => ?_
  cases heq
  exact h name rfl

/-- A variable that may be missed. -/
lemma miss {line : Nat} {name : String} (h : R line name) :
    Gentle R (Run.fail line (.undefinedVariable name) : Run α) := by
  refine fun m => ⟨.refl m, fun line name heq => ?_⟩
  cases heq
  exact h

lemma bind (hx : Gentle R x) (hf : ∀ a, Gentle R (f a)) : Gentle R (x >>= f) := by
  intro m
  have h := hx m
  simp only [Bind.bind, EStateM.bind]
  cases hrun : x m with
  | error signal n =>
      rw [hrun] at h
      exact h
  | ok a n =>
      rw [hrun] at h
      have h' := hf a n
      dsimp only at h ⊢
      cases hrest : f a n with
      | ok b k =>
          rw [hrest] at h'
          exact h.trans h'
      | error signal k =>
          rw [hrest] at h'
          exact ⟨h.trans h'.1, h'.2⟩

lemma get_bind {f : Machine → Run β} (h : ∀ m, Gentle R (f m)) : Gentle R (get >>= f) :=
  bind (fun m => .refl m) h

/-- A change of the machine. -/
lemma modifyGet {g : Machine → α × Machine} (h : ∀ m : Machine, m.Still (g m).2) :
    Gentle R (modifyGet g : Run α) := h

lemma orCrash (result : Except Crash α) : Gentle R (Run.orCrash result) := by
  cases result with
  | ok a => exact pure a
  | error c => exact throw nofun

lemma newIdent : Gentle R Run.newIdent := modifyGet fun _ => .of_eq rfl rfl

lemma newFrame (bindings : Table Value) : Gentle R (Run.newFrame bindings) :=
  modifyGet fun _ => .of_eq rfl rfl

lemma write (text : String) : Gentle R (Run.write text) := modifyGet fun _ => .of_eq rfl rfl

lemma note (text : Machine → String) : Gentle R (Run.note text) := by
  refine modifyGet fun m => ?_
  dsimp only
  split <;> exact .of_eq rfl rfl

/-- A new object has no field yet. -/
lemma newObject (cls : ClassValue) : Gentle R (Run.newObject cls) := by
  refine modifyGet fun m => ⟨rfl, fun ident => ?_⟩
  by_cases h : ident = m.fields.size
  · simp [Machine.fieldNames, Machine.fieldsOf, h]
  · simp [Machine.fieldNames, Machine.fieldsOf, Array.getElem?_push, h]

lemma define (env : Env) (name : String) (v : Value) : Gentle R (Run.define env name v) := by
  cases env with
  | nil => exact pure ()
  | cons address outer => exact modifyGet fun _ => .of_eq rfl rfl

end Run.Gentle

/-! ## The rules -/

namespace Walk

variable {α : Type}

lemma inside_apply (inner : Env) (x : Walk α) (s : Scene) :
    inside inner x s = match x { s with env := inner } with
      | .ok a t => .ok a { t with env := s.env }
      | .error halt t => .error halt { t with env := s.env } := by
  have hget : (get : Walk Scene) s = .ok s s := rfl
  have hmodify (f : Scene → Scene) (t : Scene) : (modify f : Walk Unit) t = .ok () (f t) := rfl
  simp only [inside, Bind.bind, EStateM.bind, hget, hmodify, tryFinally, tryFinally', Functor.map,
    EStateM.map]
  cases x { s with env := inner } <;> rfl

lemma opening_apply (call : CallRecord) (x : Walk α) (s : Scene) :
    opening call x s = match x s with
      | .ok a t => .ok a t
      | .error halt t => .error { halt with opened := halt.opened ++ [call] } t := by
  simp only [opening, tryCatch, tryCatchThe, MonadExceptOf.tryCatch, EStateM.tryCatch]
  cases x s <;> rfl

namespace Follows

variable {β : Type} {N : Code} {R : Nat → String → Prop} {env : Env} {Q : α → Prop}
  {Q' : β → Prop} {x : Walk α} {y : Run α} {f : α → Walk β} {g : α → Run β}

lemma pure {a : α} (h : Q a) : Follows N R env (pure a) (pure a) Q :=
  fun _ _ hm => .ok (.still fun _ => rfl) rfl hm h

lemma bind (h : Follows N R env x y Q) (hf : ∀ a, Q a → Follows N R env (f a) (g a) Q') :
    Follows N R env (x >>= f) (y >>= g) Q' := by
  intro m past hm
  have hxy := h m past hm
  simp only [Bind.bind, EStateM.bind]
  generalize x ⟨env, m, past⟩ = r at hxy ⊢
  generalize y m = r' at hxy ⊢
  cases hxy with
  | error went calls carries missed => exact .error went calls carries missed
  | @ok a t new went calls carries result =>
      -- the walk goes on in the environment that it started in
      obtain ⟨env', n, past'⟩ := t
      obtain rfl : env' = env := went.env
      exact (hf a result n past' carries).after went calls

/-- An operation of the machine. -/
lemma act {f : Env → Run α} (hagree : Agree N.Holds (f env) (f env) Q)
    (hgentle : Run.Gentle R (f env)) : Follows N R env (Walk.act f) (f env) Q := by
  intro m past hm
  have hends := (hagree.elim (fun _ => id) hm).2
  have hstill := hgentle m
  simp only [Walk.act]
  cases hrun : f env m with
  | ok a n =>
      rw [hrun] at hends hstill
      exact .ok (.still hstill.fields) hstill.calls hends.1 hends.2.2
  | error signal n =>
      rw [hrun] at hends hstill
      exact .error (.still hstill.1.fields) hstill.1.calls hends
        fun line name heq => .inl (hstill.2 line name heq)

/-- An operation of the machine that does not look at the register. -/
lemma op (hagree : Agree N.Holds y y Q) (hgentle : Run.Gentle R y) :
    Follows N R env (Walk.act fun _ => y) y Q := act (f := fun _ => y) hagree hgentle

lemma fail {line : Nat} {cause : Cause} (h : ∀ name, cause ≠ .undefinedVariable name) :
    Follows N R env (Walk.act fun _ => Run.fail line cause) (Run.fail line cause) Q :=
  op (.fail line cause) (.fail h)

/-- A walk inside another environment. -/
lemma inside {inner : Env} (h : Follows N R inner x y Q) :
    Follows N R env (Walk.inside inner x) y Q := by
  intro m past hm
  have hxy := h m past hm
  rw [inside_apply]
  generalize x ⟨inner, m, past⟩ = r at hxy ⊢
  generalize y m = r' at hxy ⊢
  cases hxy with
  | ok went calls carries result =>
      exact .ok ⟨rfl, went.past, went.code, went.fields⟩ calls carries result
  | error went calls carries missed =>
      exact .error ⟨rfl, went.past, went.code, went.fields⟩ calls carries missed

/-- A phrase of the code is reached; what it misses it has left a footprint for. -/
lemma reached {p : Phrase Depth} (hp : N.Has p) (h : Follows N p.Lacks env x y Q) :
    Follows N R env (Walk.leave (.reached p) >>= fun _ => x) y Q := by
  intro m past hm
  have hwent : Scene.Went N ⟨env, m, past⟩ [.reached p] ⟨env, m, .reached p :: past⟩ :=
    ⟨rfl, rfl, List.forall_mem_singleton.mpr hp, fun ident => ⟨[], by simp, nofun⟩⟩
  have hxy := h m (.reached p :: past) hm
  change Tells N R _ Q (x ⟨env, m, .reached p :: past⟩) (y m)
  generalize x ⟨env, m, .reached p :: past⟩ = r at hxy ⊢
  generalize y m = r' at hxy ⊢
  cases hxy with
  | ok went calls carries result => exact .ok (hwent.trans went) calls carries result
  | error went calls carries missed =>
      refine .error (hwent.trans went) calls carries fun line name heq => .inr ?_
      rcases missed line name heq with hlacks | ⟨q, hq, hlacks⟩
      · exact ⟨p, by simp, hlacks⟩
      · exact ⟨q, List.mem_append_left _ hq, hlacks⟩

/-- A call is listed while it is open. -/
lemma listed {call : CallRecord} (h : Follows N R env x y Q)
    (hf : ∀ a, Q a → Follows N R env (f a) (g a) Q') :
    Follows N R env
      (do
        Walk.act fun _ => Run.pushCall call
        let a ← Walk.opening call x
        Walk.act fun _ => Run.popCall
        f a)
      (do
        Run.pushCall call
        let a ← y
        Run.popCall
        g a) Q' := by
  intro m past hm
  have hlisted : Machine.Carries N.Holds { m with calls := call :: m.calls } := hm.congr rfl rfl
  have hxy := h { m with calls := call :: m.calls } past hlisted
  change Tells N R _ Q' (EStateM.bind (Walk.opening call x) _ ⟨env, { m with calls := _ }, past⟩)
    (EStateM.bind y _ { m with calls := _ })
  simp only [EStateM.bind, opening_apply]
  generalize x ⟨env, { m with calls := call :: m.calls }, past⟩ = r at hxy ⊢
  generalize y { m with calls := call :: m.calls } = r' at hxy ⊢
  cases hxy with
  | @error halt t new went calls carries missed =>
      refine .error ⟨went.env, went.past, went.code, went.fields⟩ ?_ carries missed
      rw [calls, List.append_assoc]
      rfl
  | @ok a t new went calls carries result =>
      obtain ⟨env', n, past'⟩ := t
      obtain rfl : env' = env := went.env
      -- the call is the innermost one when it comes back
      have hpop : n.calls.tail = m.calls := congrArg List.tail calls
      have hwent : Scene.Went N ⟨env', m, past⟩ new ⟨env', { n with calls := n.calls.tail }, past'⟩ :=
        ⟨rfl, went.past, went.code, went.fields⟩
      have hcarries : Machine.Carries N.Holds { n with calls := n.calls.tail } := carries.congr rfl rfl
      exact (hf a result _ past' hcarries).after hwent hpop

end Follows

end Walk

end KScript

import KScript.Proofs.Blame.Invocations
import KScript.Proofs.Session.Failures

/-!
# Parameters of routines

Every routine that is run gets one argument for each of its parameters, and the frame that is made for the
run binds these to those in order.  A call counts its arguments.  Get and set methods are run without
counting, but an accepted script declares them with no parameter and with one; the parameters of a routine
have different names there.
-/

namespace KScript

open Scope

variable {sources : List String} {known : List Declared} {m : Machine} {α : Type}

/-! ## The frame of a routine -/

lemma Table.bind_of_new {name : String} {value : α} {entries : List (String × α)}
    (h : name ∉ entries.map Prod.fst) : Table.bind name value entries = entries ++ [(name, value)] := by
  induction entries with
  | nil => rfl
  | cons entry rest ih =>
      simp only [List.map_cons, List.mem_cons, not_or] at h
      rw [bind, if_neg (Ne.symm h.1), ih h.2, List.cons_append]

/-- A table made of different names holds them in order. -/
lemma Table.ofList_of_nodup {entries : List (String × α)} (h : (entries.map Prod.fst).Nodup) :
    Table.ofList entries = ⟨entries⟩ := by
  have hfold : ∀ done rest : List (String × α), ((done ++ rest).map Prod.fst).Nodup →
      rest.foldl (fun t entry => t.insert entry.1 entry.2) (⟨done⟩ : Table α) = ⟨done ++ rest⟩ := by
    intro done rest
    induction rest generalizing done with
    | nil => simp
    | cons entry rest ih =>
        intro hnodup
        have hnew : entry.1 ∉ done.map Prod.fst := by
          rw [List.map_append, List.map_cons, List.nodup_middle, List.nodup_cons] at hnodup
          exact fun hmem => hnodup.1 (List.mem_append_left _ hmem)
        rw [List.append_cons] at hnodup ⊢
        rw [List.foldl_cons, insert, bind_of_new hnew]
        exact ih _ hnodup
  exact hfold [] entries h

/-- The routine has a parameter for each argument; its body is run in a new frame that binds these to those,
in order, and nothing else. -/
structure Closure.Binds (c : Closure) (args : List Value) : Prop where
  count : args.length = c.decl.params.length
  distinct : (c.decl.params.map (·.lexeme)).Nodup
  frame : ∀ (i : Interp) (m : Machine), i.invoke c args m
    = (i.execAll (m.frames.size :: c.env) c.decl.body >>= c.result)
        { m with frames := m.frames.push ⟨(c.decl.params.map (·.lexeme)).zip args⟩ }

lemma Closure.binds {c : Closure} {args : List Value} (hcount : args.length = c.decl.params.length)
    (hdistinct : (c.decl.params.map (·.lexeme)).Nodup) : c.Binds args where
  count := hcount
  distinct := hdistinct
  frame i m := by
    have hkeys : (((c.decl.params.map (·.lexeme)).zip args).map Prod.fst).Nodup := by
      rwa [List.map_fst_zip (by simp [hcount])]
    rw [← Table.ofList_of_nodup hkeys]
    rfl

/-! ## Parameters of declared routines -/

/-- How many parameters the routines of that role have, if the role tells. -/
def Role.count : Role → Option Nat
  | .getter => some 0
  | .setter => some 1
  | _ => none

lemma Stmt.params_of_resolveRoutines {c : Context} {kind : Token → BodyKind}
    {rs : List (Routine (Stmt Unit))} (hcheck : Stmt.checkRoutines c kind rs = [])
    {decl : Routine (Stmt Depth)} (h : decl ∈ Stmt.resolveRoutines c kind rs) :
    (decl.params.map (·.lexeme)).Nodup ∧ ∃ r ∈ rs, r.params = decl.params := by
  induction rs with
  | nil => cases h
  | cons r rest ih =>
      obtain ⟨name, params, body⟩ := r
      simp only [checkRoutines, List.append_eq_nil_iff] at hcheck
      rcases List.mem_cons.mp h with rfl | h
      · have hparams := Context.Within.checkParams_eq_nil.mp hcheck.1.1
        exact ⟨Scopes.fresh_enter.mp hparams, _, List.mem_cons_self, rfl⟩
      · obtain ⟨hnodup, r, hr, heq⟩ := ih hcheck.2 h
        exact ⟨hnodup, r, List.mem_cons_of_mem _ hr, heq⟩

namespace Phrase.Settled

variable {around : List Construct}

/-- The parameters of an accepted subroutine have different names. -/
lemma routine {decl : Routine (Stmt Depth)} (h : Settled around (.stmt (.routine decl))) :
    (decl.params.map (·.lexeme)).Nodup := by
  cases h with
  | @stmt c s _ h hresolve =>
      cases s with
      | routine r =>
          obtain ⟨name, params, body⟩ := r
          cases hresolve
          have hcheck := h.check
          simp only [Stmt.check, List.append_eq_nil_iff] at hcheck
          exact Scopes.fresh_enter.mp (Context.Within.checkParams_eq_nil.mp hcheck.1.2)
      | _ => cases hresolve
  | made _ hs => rcases hs with hs | hs <;> cases hs

/-- So do those of the routines of an accepted class, and there are as many as their role tells. -/
lemma member {made : Declared} (h : Settled around (.stmt made.decl)) {role : Role}
    {decl : Routine (Stmt Depth)} (hdecl : decl ∈ made.routines role) :
    (decl.params.map (·.lexeme)).Nodup ∧ ∀ n ∈ role.count, decl.params.length = n := by
  cases h with
  | @stmt c s _ h hresolve =>
      cases s with
      | classDecl name superclass methods statics getters setters =>
          obtain ⟨-, -, hm, hs, hg, ht⟩ := Stmt.classDecl.inj hresolve
          have hcheck := h.check
          simp only [Stmt.check, List.append_eq_nil_iff] at hcheck
          obtain ⟨⟨⟨⟨-, hmethods⟩, hgetters⟩, hsetters⟩, hstatics⟩ := hcheck
          obtain ⟨-, -, -, -, -, -, hnone, hone⟩ := h.proper
          cases role with
          | subroutine => cases hdecl
          | method => exact ⟨(Stmt.params_of_resolveRoutines hmethods (hm ▸ hdecl)).1, by rintro _ ⟨⟩⟩
          | staticMethod => exact ⟨(Stmt.params_of_resolveRoutines hstatics (hs ▸ hdecl)).1, by rintro _ ⟨⟩⟩
          | getter =>
              have hmem : decl ∈ made.getters := hdecl
              rw [← hg] at hmem
              obtain ⟨hnodup, r, hr, heq⟩ := Stmt.params_of_resolveRoutines hgetters hmem
              refine ⟨hnodup, ?_⟩
              rintro _ ⟨⟩
              exact heq ▸ hnone r hr
          | setter =>
              have hmem : decl ∈ made.setters := hdecl
              rw [← ht] at hmem
              obtain ⟨hnodup, r, hr, heq⟩ := Stmt.params_of_resolveRoutines hsetters hmem
              refine ⟨hnodup, ?_⟩
              rintro _ ⟨⟩
              exact heq ▸ hone r hr
      | _ => cases hresolve
  | made _ hs => rcases hs with hs | hs <;> cases hs

end Phrase.Settled

namespace Closure

variable {c : Closure}

lemma parameters_of_declared (hm : m.Knows sources known) {made : Declared} (hmade : made ∈ known)
    {role : Role} (hc : (made.cls.own.group role).find? c.decl.name.lexeme = some c) :
    (c.decl.params.map (·.lexeme)).Nodup ∧ ∀ n ∈ role.count, c.decl.params.length = n := by
  obtain ⟨hmem, -⟩ := ((hm.orderly.sound hmade).routines role).find hc
  exact ((hm.kept made hmade).runs.stands hm.orderly).settled.member hmem

lemma Linked.distinct (h : c.Linked sources (m.world known)) (hm : m.Knows sources known) :
    (c.decl.params.map (·.lexeme)).Nodup := by
  cases h with
  | subroutine h => exact (h.stands hm.orderly).settled.routine
  | static hmade hc => exact (parameters_of_declared hm hmade hc).1
  | bound hmade _ hc hdecl => exact hdecl ▸ (parameters_of_declared hm hmade hc).1

/-- A method that an object finds gets it as its receiver. -/
lemma bind_binds (role : Role) (hm : m.Knows sources known) {object : Object}
    (hobject : object.cls.Known (m.world known))
    (hrole : ∀ name, (Construct.routine role name).hasReceiver = true) {name : String}
    (hfind : object.cls.search role name = some c) {args : List Value}
    (hcount : role.count = some args.length ∨ args.length = c.decl.params.length) :
    Recorded sources known m (fun _ => c.bind object) (c.bind object) fun bound _ => bound.Binds args := by
  obtain ⟨made, hmade, hc, hlineage⟩ := hobject.find role hm.orderly hfind
  obtain ⟨hdistinct, hnumber⟩ := parameters_of_declared hm hmade hc
  refine (bind_recorded hm hmade (hrole _) hc hobject hlineage).traced.imp ?_
  rintro bound w - ⟨-, next, heq, -⟩
  cases heq
  refine Closure.binds ?_ hdistinct
  rcases hcount with hcount | hcount
  · exact (hnumber _ hcount).symm
  · exact hcount

end Closure

/-! ## Running routines -/

/-- What is about to be run, if anything is, binds its parameters. -/
def Invocation.Bound (o : Option Invocation) : Prop := ∀ c args, o = some (c, args) → c.Binds args

lemma Invocation.bound_none : Bound none := nofun

lemma Interp.takes_iff {n count : Nat} : takes (some n) count = true ↔ n = count := by simp [takes]

lemma Callable.approach_recorded (hm : m.Knows sources known) {callee : Value}
    (hcallee : callee.Linked sources (m.world known)) {callable : Callable}
    (hcallable : Callable.ofValue? callee = some callable) {args : List Value}
    (htakes : Interp.takes callable.arity args.length = true) :
    Recorded sources known m (fun _ => callable.approach args) (callable.approach args)
      fun o _ => Invocation.Bound o := by
  cases hcallee with
  | native n =>
      cases hcallable
      exact .pure hm Invocation.bound_none
  | routine hc =>
      cases hcallable
      refine .pure hm ?_
      rintro c args ⟨⟩
      exact Closure.binds (Interp.takes_iff.mp htakes).symm (hc.distinct hm)
  | @classValue cls hcls =>
      cases hcallable
      refine .bind (.newObject hm hcls) fun object next later hnext _ hobject => ?_
      have hknown : object.cls.Known (next.world later) := hobject.1 ▸ hobject.2
      cases hfind : cls.constructor? with
      | none => exact .pure hnext Invocation.bound_none
      | some c =>
          have hcount : args.length = c.decl.params.length := by
            simp only [Callable.arity, hfind] at htakes
            exact (Interp.takes_iff.mp htakes).symm
          refine .bind (Closure.bind_binds .method hnext hknown (fun _ => rfl) (hobject.1 ▸ hfind)
            (.inr hcount)) fun bound _ _ hlast _ hbound => .pure hlast ?_
          rintro _ _ ⟨⟩
          exact hbound
  | _ => cases hcallable

lemma Object.approach_recorded (role : Role) (hm : m.Knows sources known) {object : Object}
    (hobject : object.cls.Known (m.world known))
    (hrole : ∀ name, (Construct.routine role name).hasReceiver = true) (name : String) (inside : Bool)
    {args : List Value} (hcount : role.count = some args.length) :
    Recorded sources known m (fun _ => object.approach (object.cls.search role name) inside args)
      (object.approach (object.cls.search role name) inside args) fun o _ => Invocation.Bound o := by
  cases inside with
  | true => exact .pure hm Invocation.bound_none
  | false =>
      cases hfind : object.cls.search role name with
      | none => exact .pure hm Invocation.bound_none
      | some c =>
          refine .bind (Closure.bind_binds role hm hobject hrole hfind (.inl hcount))
            fun bound _ _ hnext _ hbound => .pure hnext ?_
          rintro _ _ ⟨⟩
          exact hbound

lemma Callable.begin_recorded (hm : m.Knows sources known) (callable : Callable) (args : List Value)
    (line : Nat) : Recorded sources known m (fun _ => callable.begin args line) (callable.begin args line)
      fun _ _ => True := by
  refine .bind (.note hm _) fun _ _ _ hnext _ _ => .get_bind ?_
  split
  · exact .fail hnext _ _
  · exact .pure hnext trivial

/-- The evaluators next to the plain one can be left out. -/
lemma Recording.alone {i : List Declared × Signal → Interp} {j : Interp} (h : Recording sources i j) :
    Recording sources (fun _ => j) j where
  plain := h.plain
  fuel _ := rfl
  eval hm hruns := Exists.imp (fun _ hlater => ⟨fun _ _ => rfl, hlater.2⟩) (h.eval hm hruns)
  exec hm hruns := Exists.imp (fun _ hlater => ⟨fun _ _ => rfl, hlater.2⟩) (h.exec hm hruns)

/-- What an expression comes to, given what its parts do. -/
lemma Begun.approach_recorded {around : List Construct} {env : Env} {e : Expr Depth} {level : Nat}
    (h : Recording sources (fun _ => interpAt level) (interpAt level)) (hm : m.Knows sources known)
    (hruns : (m.world known).Runs sources around env (.expr e)) :
    Recorded sources known m (fun _ => (Begun.mk level env (.expr e) m).approach)
      (Begun.mk level env (.expr e) m).approach fun o _ => Invocation.Bound o := by
  have hpart {next : Machine} {later : List Declared} (hle : (m.world known).Le (next.world later))
      {operand : Expr Depth} (hmem : operand ∈ e.operands) :
      (next.world later).Runs sources around env (.expr operand) :=
    (hruns.mono hle).part (List.mem_map.mpr ⟨operand, hmem, rfl⟩)
  cases e with
  | call callee paren args =>
      refine .bind (h.eval hm (hpart (.refl _) List.mem_cons_self)) fun target next later hnext hle ht => ?_
      refine .bind (h.evalAll hnext fun e he => hpart hle (List.mem_cons_of_mem _ he))
        fun values last latest hlast hle' _ => ?_
      cases hcallable : Callable.ofValue? target with
      | none => exact .pure hlast Invocation.bound_none
      | some callable =>
          by_cases htakes : Interp.takes callable.arity values.length = true
          · simp only [htakes, if_true]
            refine .bind (.pushCall hlast _) fun _ _ _ hpushed hle₁ _ => ?_
            refine .bind (callable.begin_recorded hpushed values paren.line) fun _ _ _ hbegun hle₂ _ => ?_
            exact Callable.approach_recorded hbegun (ht.mono (hle'.trans (hle₁.trans hle₂))) hcallable htakes
          · simp only [htakes]
            exact .pure hlast Invocation.bound_none
  | get object name inside =>
      refine .bind (h.eval hm (hpart (.refl _) List.mem_cons_self)) fun target next later hnext _ ht => ?_
      cases ht with
      | object hobject => exact Object.approach_recorded .getter hnext hobject (fun _ => rfl) _ inside rfl
      | _ => exact .pure hnext Invocation.bound_none
  | set object name value inside =>
      refine .bind (h.eval hm (hpart (.refl _) List.mem_cons_self)) fun target next later hnext hle ht => ?_
      cases ht with
      | object hobject =>
          refine .bind (h.eval hnext (hpart hle (by simp [Expr.operands])))
            fun v last latest hlast hle' _ => ?_
          exact Object.approach_recorded .setter hlast (hobject.mono hle') (fun _ => rfl) _ inside rfl
      | _ => exact .pure hnext Invocation.bound_none
  | _ => exact .pure hm Invocation.bound_none

/-- **Every routine that a phrase runs binds its parameters.** -/
theorem Begun.lasting_binds (sources : List String) :
    Begun.Lasting sources fun x => ∀ c args next, x.Invokes c args next → c.Binds args := by
  intro known m around env p level hm hruns c args next hinvokes
  have hlasting : Begun.Lasting sources fun _ => True := fun _ _ _ => trivial
  have hrecording := (hlasting.recording level).alone
  cases p with
  | stmt s => cases hinvokes
  | expr e =>
      obtain ⟨later, -, hends⟩ := Begun.approach_recorded hrecording hm hruns
      rw [Begun.Invokes] at hinvokes
      rw [hinvokes] at hends
      exact hends.2.2 c args rfl

namespace Session

/-- **Every run of a routine binds every parameter.**  Whatever scripts a session has run, in the run of an
accepted script

* every routine that a phrase invokes has as many parameters as there are arguments, and its body is run in a
  new frame that binds the ones to the others in order and nothing else.  This holds of subroutines, of methods
  with and without receiver, of constructors and of get and set methods, however a value came to be called;
* a phrase runs bodies by its invocations only;
* a call with another number of arguments fails after its callee and its arguments, from the first on, have
  got their values, on the machine that these leave: no call is listed and no routine is run. -/
theorem parameters_bound {s : Session} (hs : Reached sources s) {source : String}
    (haccepted : (prepare source).1 = []) (echo : Bool) (n : Nat) :
    Program.Always (fun x => ∀ c args next, x.Invokes c args next → c.Binds args) n
        (echoed echo (prepare source).2) (ready s.machine)
      ∧ (∀ (x : Begun) (e : Expr Depth), x.phrase = .expr e → x.Accounts e)
      ∧ ∀ level env callee paren args m target next values last callable count,
          evalAt level env callee m = .ok target next → Yields level env args next values last →
          Callable.ofValue? target = some callable → callable.arity = some count → count ≠ values.length →
          evalAt (level + 1) env (.call callee paren args) m
            = .error (.failure paren.line (.wrongCount count values.length)) last :=
  ⟨hs.always (Begun.lasting_binds _) haccepted echo n, fun x _ he => x.accounts he,
    fun _ _ _ paren _ _ _ _ _ _ _ _ hcallee hargs hcallable harity hcount =>
      evalAt_call_of_count paren hcallee hargs hcallable harity hcount⟩

/-- A class whose subclass inherits its constructor and its accessors. -/
def pairScript : String :=
  "class Pair \x7b construct(first, second) \x7b this.first = first; this.second = second; \x7d "
    ++ "get text() \x7b return this.join(\",\"); \x7d set text(v) \x7b this.first = v; \x7d "
    ++ "join(mark) \x7b return this.first + mark + this.second; \x7d "
    ++ "static of(both) \x7b return Pair(both, both); \x7d \x7d "
    ++ "class Wide <- Pair \x7b join(mark) \x7b return super.join(mark + \" \"); \x7d \x7d"

/-- Runs each of its routines. -/
def joinScript : String :=
  "var w = Wide(\"a\", \"b\"); var kept = w.join; w.text = \"c\"; "
    ++ "print(w.text + kept(\"-\") + Pair.of(\"d\").text);"

theorem parameters_bound_joinScript :
    let s := ((Session.new true false "" 0).runScript pairScript false).2
    Reached [pairScript] s ∧ (prepare joinScript).1 = []
      ∧ (s.runScript joinScript false).1.output = "c, bc- bd,d\n"
      ∧ Program.Always (fun x => ∀ c args next, x.Invokes c args next → c.Binds args) fuel
          (echoed false (prepare joinScript).2) (ready s.machine)
      ∧ (s.runScript "Wide(\"a\");" false).1.outcome.failure? = some (1, .wrongCount 2 1) := by
  intro s
  have hs : Reached [pairScript] s := .run (.new true false "" 0) pairScript false
  have haccepted : (prepare joinScript).1 = [] := by decide +kernel
  have hruns : (s.runScript joinScript false).1.output = "c, bc- bd,d\n"
      ∧ (s.runScript "Wide(\"a\");" false).1.outcome.failure? = some (1, .wrongCount 2 1) := by
    decide +kernel
  exact ⟨hs, haccepted, hruns.1, (parameters_bound hs haccepted false fuel).1, hruns.2⟩

end Session

end KScript

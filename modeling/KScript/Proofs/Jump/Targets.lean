import KScript.Proofs.Code.Carried
import KScript.Proofs.Jump.Exits

/-!
# Jumps that go to their targets

A second way to execute programs, in which no statement tells how it ended.  A statement is given the
places at which the run goes on after it (`Targets`): where it goes after its end, and where `break`,
`continue` and `return` go to.  A loop sets the targets of the jumps in its body, and passes on the target
of `return`; a body of a routine sets the target of `return`, and has no place for a jump to go to.  So
a jump can only ever end the innermost loop around it in its own body, and a `return` its own body.

If all code is enclosed, both ways do the same (`Targets.same_execAt`).
-/

namespace KScript

/-- Where the run goes on after a statement. -/
structure Targets where
  /-- After the end of the statement. -/
  next : Run Completion
  /-- After a `break` that leaves the statement. -/
  breakTo : Run Completion
  /-- After a `continue` that leaves the statement. -/
  continueTo : Run Completion
  /-- After a `return` that leaves the statement. -/
  returnTo : Value → Run Completion

namespace Targets

/-- The targets of a statement in the body of a routine: a jump that leaves the body is lost. -/
def ofBody (lost : Signal) : Targets where
  next := pure .normal
  breakTo := throw lost
  continueTo := throw lost
  returnTo v := pure (.returned v)

/-- The targets of a statement of the top level: a jump or a `return` that leaves it is lost. -/
def ofTopLevel (lost : Signal) : Targets := { ofBody lost with returnTo := fun _ => throw lost }

/-! ## Execution -/

/-- Executes statements in order. -/
def execAll (exec : Stmt Depth → Targets → Run Completion) :
    List (Stmt Depth) → Targets → Run Completion
  | [], k => k.next
  | s :: rest, k => exec s { k with next := execAll exec rest k }

/-- A loop: a `break` goes on after the loop, a `continue` goes on with the next turn, and a `return`
goes where it would go without the loop. -/
def loop (test : Run Bool) (body : Targets → Run Completion) (after : Run Unit) (k : Targets) :
    Nat → Run Completion
  | 0 => throw .exhausted
  | fuel + 1 => do
    let again : Run Completion := do
      after
      loop test body after k fuel
    if ← test then body { k with next := again, breakTo := k.next, continueTo := again }
    else k.next

/-- Executes a statement, given an evaluator for expressions and one for its parts. -/
def execStep (i : Interp) (exec : Env → Stmt Depth → Targets → Run Completion) (env : Env) :
    Stmt Depth → Targets → Run Completion
  | .block body, k => do
    let address ← Run.newFrame .empty
    execAll (exec (address :: env)) body k
  | .branch condition yes no, k => do
    if ← i.test env condition then exec env yes k
    else
      match no with
      | some s => exec env s k
      | none => k.next
  | .loop condition body, k => loop (i.test env condition) (exec env body) (pure ()) k i.fuel
  | .forLoop start condition after body, k => do
    let address ← Run.newFrame .empty
    let inner := address :: env
    i.begin inner start
    loop (i.test inner condition) (exec inner body) (i.advance inner after) k i.fuel
  | .jump .breakLoop _, k => k.breakTo
  | .jump .continueLoop _, k => k.continueTo
  | .giveBack _ value, k => do
    k.returnTo (← i.evalOption env value)
  | s, k => do
    let _ ← i.execStep env s
    k.next

mutual

/-- Evaluates an expression with at most `fuel` levels; the bodies it calls run to their targets. -/
def evalAt (lost : Signal) : Nat → Env → Expr Depth → Run Value
  | 0, _, _ => throw .exhausted
  | fuel + 1, env, e =>
    Interp.evalStep ⟨fuel, evalAt lost fuel, fun env s => execAt lost fuel env s (ofBody lost)⟩ env e

/-- Executes a statement with at most `fuel` levels and goes on at its targets. -/
def execAt (lost : Signal) : Nat → Env → Stmt Depth → Targets → Run Completion
  | 0, _, _, _ => throw .exhausted
  | fuel + 1, env, s, k =>
    execStep ⟨fuel, evalAt lost fuel, fun env s => execAt lost fuel env s (ofBody lost)⟩
      (execAt lost fuel) env s k

end

/-- The evaluator of so many levels. -/
def interpAt (lost : Signal) (fuel : Nat) : Interp :=
  ⟨fuel, evalAt lost fuel, fun env s => execAt lost fuel env s (ofBody lost)⟩

/-- Executes a program at the top level. -/
def run (lost : Signal) (fuel : Nat) : Program Depth → Run Unit
  | [] => return
  | s :: rest => do
    let _ ← execAt lost fuel Machine.globalEnv s (ofTopLevel lost)
    run lost fuel rest

/-! ## Completions and targets -/

/-- Where a completion goes. -/
def go (k : Targets) : Completion → Run Completion
  | .normal => k.next
  | .broke => k.breakTo
  | .continued => k.continueTo
  | .returned v => k.returnTo v

open Run (Agree Same)

variable {K : Routine (Stmt Depth) → Prop} {i : Interp} {env : Env}
  {exec : Env → Stmt Depth → Targets → Run Completion}

/-- Executing a statement to its completion and then going where that leads is going to the targets. -/
def Directs (K : Routine (Stmt Depth) → Prop) (i : Interp)
    (exec : Env → Stmt Depth → Targets → Run Completion) : Prop :=
  ∀ env s k, s.Brings K → Same K (i.exec env s >>= k.go) (exec env s k)

lemma Directs.execAll (h : Directs K i exec) (hi : (Policy.carrying K).Follows i i) (env : Env) {ss : List (Stmt Depth)}
    (hss : Stmt.BringsAll K ss) (k : Targets) :
    Same K (i.execAll env ss >>= k.go) (execAll (exec env) ss k) := by
  induction ss with
  | nil => exact .refl _
  | cons s rest ih =>
      obtain ⟨hs, hrest⟩ := List.forall_mem_append.mp hss
      refine .trans ?_ (h env s { k with next := Targets.execAll (exec env) rest k } hs)
      simp only [Interp.execAll, bind_assoc]
      refine (hi.exec s hs (.carrying env)).bind_same fun c _ => ?_
      cases c with
      | normal => exact ih hrest
      | _ => exact .refl _

/-- A loop over completions and a loop over targets. -/
lemma same_loop {test test' : Run Bool} {body : Run Completion} {body' : Targets → Run Completion}
    {after after' : Run Unit} (htest : Agree K test test' fun _ => True)
    (hbody : Agree K body body (Completion.Carries K))
    (hbody' : ∀ k, Same K (body >>= Targets.go k) (body' k))
    (hafter : Agree K after after' fun _ => True) (k : Targets) (fuel : Nat) :
    Same K (Run.loop test body after fuel >>= k.go) (loop test' body' after' k fuel) := by
  induction fuel with
  | zero => exact .refl _
  | succ fuel ih =>
      simp only [Run.loop, loop, bind_assoc]
      refine htest.bind_same fun holds _ => ?_
      cases holds with
      | false => exact .refl _
      | true =>
          -- what the loop makes of the completion of its body is what its targets make of it
          refine .trans ?_ (hbody' _)
          simp only [if_true, bind_assoc]
          refine hbody.bind_same fun c _ => ?_
          have hagain : Same K ((after >>= fun _ => Run.loop test body after fuel) >>= k.go)
              (after' >>= fun _ => loop test' body' after' k fuel) := by
            simp only [bind_assoc]
            exact hafter.bind_same fun _ _ => ih
          cases c with
          | normal => exact hagain
          | continued => exact hagain
          | broke => exact .refl _
          | returned v => exact .refl _

lemma execStep_of_isSimple {s : Stmt Depth} (hsimple : s.isSimple = true) (k : Targets) :
    execStep i exec env s k = (i.execStep env s >>= fun _ => k.next) := by
  cases s with
  | block _ | branch _ _ _ | loop _ _ | forLoop _ _ _ _ | jump _ _ | giveBack _ _ => cases hsimple
  | _ => rfl

/-- Statements that are not left by a jump end the same whether or not jumps have a place to go to. -/
lemma bind_go_ofBody {x : Run Completion} {exits : List Exit} (lost : Signal)
    (hx : Run.Gives x (Completion.In exits)) (hjump : .jump ∉ exits) :
    x >>= (ofBody lost).go = x := by
  funext m
  simp only [Bind.bind, EStateM.bind]
  cases hrun : x m with
  | error s n => rfl
  | ok c n =>
      have hc := hx m c n hrun
      cases c with
      | broke | continued => exact absurd (hc _ rfl) hjump
      | _ => rfl

/-- Statements that cannot be left at all need no targets but the next statement. -/
lemma bind_go_ofTopLevel {x : Run Completion} {exits : List Exit} (lost : Signal)
    (hx : Run.Gives x (Completion.In exits)) (hjump : .jump ∉ exits) (hreturn : .giveBack ∉ exits) :
    x >>= (ofTopLevel lost).go = x := by
  funext m
  simp only [Bind.bind, EStateM.bind]
  cases hrun : x m with
  | error s n => rfl
  | ok c n =>
      have hc := hx m c n hrun
      cases c with
      | normal => rfl
      | broke | continued => exact absurd (hc _ rfl) hjump
      | returned v => exact absurd (hc _ rfl) hreturn

/-! ## Bodies -/

namespace Directs

variable (lost : Signal)

lemma exec_agree (h : Directs K i exec) (hi : (Policy.carrying K).Follows i i) (hexits : i.Exits) (env : Env)
    {s : Stmt Depth} (hs : s.Brings K) (hjump : .jump ∉ s.exits) :
    Agree K (i.exec env s) (exec env s (ofBody lost)) (Completion.Carries K) := by
  have hsame := h env s (ofBody lost) hs
  rw [bind_go_ofBody lost (hexits env s) hjump] at hsame
  exact (hi.exec s hs (.carrying env)).congr hsame

/-- A body without jumps that leave it runs the same. -/
lemma execAll_agree {j : Interp} (hj : j.exec = fun env s => exec env s (ofBody lost))
    (h : Directs K i exec) (hi : (Policy.carrying K).Follows i i) (hexits : i.Exits) (env : Env)
    {ss : List (Stmt Depth)} (hss : Stmt.BringsAll K ss) (hjump : .jump ∉ Stmt.exitsAll ss) :
    Agree K (i.execAll env ss) (j.execAll env ss) (Completion.Carries K) := by
  induction ss with
  | nil => exact .pure nofun
  | cons s rest ih =>
      have hfirst : .jump ∉ s.exits := fun hmem => hjump (List.mem_append_left _ hmem)
      have hrest : .jump ∉ Stmt.exitsAll rest := fun hmem => hjump (List.mem_append_right _ hmem)
      obtain ⟨hs, hothers⟩ := List.forall_mem_append.mp hss
      have hagree := h.exec_agree lost hi hexits env hs hfirst
      simp only [Interp.execAll, hj]
      refine hagree.bind fun c hc => ?_
      cases c with
      | normal => exact ih hothers hrest
      | _ => exact .pure hc

end Directs

/-! ## Code that is enclosed -/

mutual

lemma brings_of_enclosed : ∀ {s : Stmt Depth}, s.Enclosed → s.Brings Routine.Enclosed
  | .block _, h => bringsAll_of_enclosedAll h
  | .branch _ _ _, ⟨hyes, hno⟩ =>
      List.forall_mem_append.mpr ⟨brings_of_enclosed hyes, brought_of_enclosedOption hno⟩
  | .loop _ body, h | .forLoop _ _ _ body, h => brings_of_enclosed (s := body) h
  | .routine ⟨_, _, _⟩, h => List.forall_mem_singleton.mpr h
  | .classDecl _ _ _ _ _ _, ⟨hm, hs, hg, ht⟩ => by
      simp only [Stmt.enclosedRoutines_iff] at hm hs hg ht
      simp only [Stmt.Brings, Stmt.brought, List.forall_mem_append]
      exact ⟨⟨⟨hm, hs⟩, hg⟩, ht⟩
  | .expr _, _ | .echo _, _ | .var _ _, _ | .exit _ _, _ | .step _ _, _ | .jump _ _, _
  | .giveBack _ _, _ => List.forall_mem_nil _

lemma bringsAll_of_enclosedAll : ∀ {ss : List (Stmt Depth)}, Stmt.EnclosedAll ss →
    Stmt.BringsAll Routine.Enclosed ss
  | [], _ => List.forall_mem_nil _
  | _ :: _, ⟨hs, hrest⟩ => List.forall_mem_append.mpr ⟨brings_of_enclosed hs, bringsAll_of_enclosedAll hrest⟩

lemma brought_of_enclosedOption : ∀ {s : Option (Stmt Depth)}, Stmt.EnclosedOption s →
    ∀ r ∈ Stmt.broughtOption s, r.Enclosed
  | none, _ => List.forall_mem_nil _
  | some _, h => brings_of_enclosed h

end

/-- Enclosed routines are a closed kind. -/
lemma bringsAll_body {r : Routine (Stmt Depth)} (h : r.Enclosed) :
    Stmt.BringsAll Routine.Enclosed r.body := bringsAll_of_enclosedAll h.2

lemma interpAt_keeps (fuel : Nat) :
    (Policy.carrying Routine.Enclosed).Follows (KScript.interpAt fuel) (KScript.interpAt fuel) :=
  interpAt_follows (fun _ => bringsAll_body) fuel

section

variable (lost : Signal) (fuel : Nat)

/-- The evaluators agree if statements go to their targets. -/
lemma agrees_of_directs
    (heval : ∀ env e, Agree Routine.Enclosed (KScript.evalAt fuel env e) (evalAt lost fuel env e)
      (Value.Carries Routine.Enclosed))
    (h : Directs Routine.Enclosed (KScript.interpAt fuel) (execAt lost fuel)) :
    (Policy.carrying Routine.Enclosed).Agrees (KScript.interpAt fuel) (interpAt lost fuel) where
  eval e _ := heval _ e
  body _ hr _ := Directs.execAll_agree lost rfl h (interpAt_keeps fuel) (interpAt_exits fuel) _
    (bringsAll_body hr) hr.1

/-- **One level further up statements go to their targets as well.** -/
theorem directs_execStep
    (h : Directs Routine.Enclosed (KScript.interpAt fuel) (execAt lost fuel))
    (hagrees : (Policy.carrying Routine.Enclosed).Agrees (KScript.interpAt fuel) (interpAt lost fuel))
    (env : Env) (s : Stmt Depth) (k : Targets) (hs : s.Brings Routine.Enclosed) :
    Same Routine.Enclosed ((KScript.interpAt fuel).execStep env s >>= k.go)
      (execStep (interpAt lost fuel) (execAt lost fuel) env s k) := by
  have hkeeps := interpAt_keeps fuel
  by_cases hsimple : s.isSimple = true
  · rw [execStep_of_isSimple hsimple]
    refine (hagrees.execStep_of_isSimple (.carrying env) hsimple hs).bind_same ?_
    rintro c rfl
    exact .refl _
  · cases s with
    | block body =>
        simp only [Interp.execStep, bind_assoc]
        exact (Policy.Obeys.newFrame .empty).bind_same fun address _ => h.execAll hkeeps _ hs k
    | branch condition yes no =>
        simp only [Interp.execStep, bind_assoc]
        obtain ⟨hyes, hno⟩ := List.forall_mem_append.mp hs
        refine (hagrees.test (.carrying env) condition).bind_same fun holds _ => ?_
        cases holds with
        | true => exact h env yes k hyes
        | false =>
            cases no with
            | some s => exact h env s k hno
            | none => exact .refl _
    | loop condition body =>
        exact same_loop (hagrees.test (.carrying env) condition) (hkeeps.exec body hs (.carrying env))
          (fun k => h env body k hs) (.pure trivial) k fuel
    | forLoop start condition after body =>
        simp only [Interp.execStep, bind_assoc]
        refine (Policy.Obeys.newFrame .empty).bind_same fun address _ => ?_
        have hbegin : Agree Routine.Enclosed ((KScript.interpAt fuel).begin (address :: env) start)
            ((interpAt lost fuel).begin (address :: env) start) fun _ => True := by
          cases start with
          | none => exact .pure trivial
          | some start =>
              have hexits : .jump ∉ start.toStmt.exits := by cases start <;> exact List.not_mem_nil
              exact .bind (h.exec_agree lost hkeeps (interpAt_exits fuel) _ start.brings_toStmt hexits)
                fun _ _ => .pure trivial
        refine hbegin.bind_same fun _ _ => ?_
        exact same_loop (hagrees.test (.carrying _) condition) (hkeeps.exec body hs (.carrying _))
          (fun k => h _ body k hs) (hagrees.advance (.carrying _) after) k fuel
    | jump jump keyword => cases jump <;> exact .refl _
    | giveBack keyword value =>
        simp only [Interp.execStep, bind_assoc]
        exact (hagrees.evalOption (.carrying env) value).bind_same fun v _ => .refl _
    | _ => exact absurd rfl hsimple

/-- **Executing statements to their completions is going to their targets.** -/
theorem same_execAt :
    (∀ env e, Agree Routine.Enclosed (KScript.evalAt fuel env e) (evalAt lost fuel env e)
      (Value.Carries Routine.Enclosed))
      ∧ Directs Routine.Enclosed (KScript.interpAt fuel) (execAt lost fuel) := by
  induction fuel with
  | zero => exact ⟨fun _ _ => .throw _, fun _ _ _ _ => .refl _⟩
  | succ fuel ih =>
      have hagrees := agrees_of_directs lost fuel ih.1 ih.2
      exact ⟨fun env e => hagrees.evalStep (.carrying env) e,
        fun env s k hs => directs_execStep lost fuel ih.2 hagrees env s k hs⟩

end

end Targets

end KScript

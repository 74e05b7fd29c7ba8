import KScript.Proofs.Blame.Cuts
import KScript.Proofs.Eval.Heap
import KScript.Proofs.Scope.Places

/-!
# Guarding a run

A guard looks at every moment of a run at which a phrase is begun, and can only stop the run there.  A run
comes to a phrase of some kind if a guard for that kind stops it, whatever the signal (`Program.Begins`).
-/

namespace KScript

variable {S : Signal → Prop} {i j : Interp} {env : Env} {p : Phrase Depth} {m : Machine} {signal : Signal}
  {fuel : Nat} {program : Program Depth}

namespace Interp

/-- The evaluator of one level more. -/
def step (i : Interp) : Interp := ⟨i.fuel + 1, i.evalStep, i.execStep⟩

/-- The phrase is cut short by the signal. -/
def Stops (i : Interp) (env : Env) (p : Phrase Depth) (m : Machine) (signal : Signal) : Prop :=
  match p with
  | .expr e => ∃ m', i.eval env e m = .error signal m'
  | .stmt s => ∃ m', i.exec env s m = .error signal m'

/-- Executes the statements of a program one after the other at the top level. -/
def run (i : Interp) : Program Depth → Run Unit
  | [] => return
  | s :: rest => do
    let _ ← i.exec Machine.globalEnv s
    i.run rest

/-- A program is cut short when one of its statements is. -/
lemma exists_stops_of_run {m' : Machine} (h : i.run program m = .error signal m') :
    ∃ p m₁, i.Stops Machine.globalEnv p m₁ signal := by
  induction program generalizing m with
  | nil => cases h
  | cons s rest ih =>
      simp only [run, Bind.bind, EStateM.bind] at h
      cases hs : i.exec Machine.globalEnv s m with
      | ok completion next =>
          rw [hs] at h
          exact ih h
      | error signal' next =>
          rw [hs] at h
          cases h
          exact ⟨.stmt s, m, m', hs⟩

namespace Shorter

lemma step (h : Interp.Shorter S i j) : Interp.Shorter S i.step j.step :=
  ⟨congrArg (· + 1) h.fuel, h.evalStep, h.execStep⟩

lemma run (h : Interp.Shorter S i j) (program : Program Depth) :
    Run.Shorter S (i.run program) (j.run program) := by
  induction program with
  | nil => exact .refl _
  | cons s rest ih => exact (h.exec _ s).bind fun _ => ih

/-- What is cut short by a signal of another kind is cut short by it in both. -/
lemma stops (h : Interp.Shorter S i j) (hstops : i.Stops env p m signal) (hsignal : ¬S signal) :
    j.Stops env p m signal := by
  cases p with
  | expr e =>
      obtain ⟨m', hm'⟩ := hstops
      rcases h.eval env e m with heq | ⟨signal', last, hs, hcut⟩
      · exact ⟨m', heq ▸ hm'⟩
      · cases hcut.symm.trans hm'
        exact absurd hs hsignal
  | stmt s =>
      obtain ⟨m', hm'⟩ := hstops
      rcases h.exec env s m with heq | ⟨signal', last, hs, hcut⟩
      · exact ⟨m', heq ▸ hm'⟩
      · cases hcut.symm.trans hm'
        exact absurd hs hsignal

end Shorter

end Interp

lemma interpAt_succ (fuel : Nat) : interpAt (fuel + 1) = (interpAt fuel).step := rfl

lemma Program.run_eq (fuel : Nat) (program : Program Depth) :
    Program.run fuel program = (interpAt fuel).run program := by
  induction program with
  | nil => rfl
  | cons s rest ih =>
      rw [Program.run, Interp.run, ih]
      rfl

/-! ## Guards -/

/-- A moment of a run at which a phrase is begun. -/
structure Begun where
  /-- How many levels are left for its parts. -/
  level : Nat
  env : Env
  phrase : Phrase Depth
  machine : Machine

/-- The phrase that is begun is cut short by the signal, if an evaluator of its level is put to it. -/
def Begun.Stops (x : Begun) (i : Nat → Interp) (signal : Signal) : Prop :=
  (i (x.level + 1)).Stops x.env x.phrase x.machine signal

/-- Whether to stop before a phrase, and with which signal. -/
abbrev Guard := Begun → Option Signal

namespace Guard

/-- Looks at the moment before a phrase. -/
def before (g : Guard) (level : Nat) (env : Env) (phrase : Phrase Depth) : Run Unit := do
  match g ⟨level, env, phrase, ← get⟩ with
  | none => return
  | some signal => throw signal

/-- The evaluator of so many levels under a guard. -/
def interpAt (g : Guard) : Nat → Interp
  | 0 => ⟨0, fun _ _ => throw .exhausted, fun _ _ => throw .exhausted⟩
  | fuel + 1 =>
    { fuel := fuel + 1
      eval := fun env e => do
        g.before fuel env (.expr e)
        (g.interpAt fuel).evalStep env e
      exec := fun env s => do
        g.before fuel env (.stmt s)
        (g.interpAt fuel).execStep env s }

/-- Runs a program under a guard. -/
def run (g : Guard) (fuel : Nat) (program : Program Depth) : Run Unit := (g.interpAt fuel).run program

open Classical in
/-- Stops with that signal before the phrases of some kind. -/
noncomputable def stopAt (kind : Begun → Prop) (signal : Signal) : Guard := fun x =>
  if kind x then some signal else none

/-- Stops nowhere. -/
def pass : Guard := fun _ => none

variable {g g' : Guard} {kind : Begun → Prop}

lemma stopAt_of (h : kind ⟨fuel, env, p, m⟩) :
    stopAt kind signal ⟨fuel, env, p, m⟩ = some signal := if_pos h

lemma stopAt_of_not (h : ¬kind ⟨fuel, env, p, m⟩) :
    stopAt kind signal ⟨fuel, env, p, m⟩ = none := if_neg h

lemma eval_of_none {e : Expr Depth} (h : g ⟨fuel, env, .expr e, m⟩ = none) :
    (g.interpAt (fuel + 1)).eval env e m = (g.interpAt fuel).evalStep env e m := by
  simp only [interpAt, before, bind_assoc, Run.get_bind_apply, h, pure_bind]

lemma eval_of_some {e : Expr Depth} (h : g ⟨fuel, env, .expr e, m⟩ = some signal) :
    (g.interpAt (fuel + 1)).eval env e m = .error signal m := by
  simp only [interpAt, before, bind_assoc, Run.get_bind_apply, h]
  rfl

lemma exec_of_none {s : Stmt Depth} (h : g ⟨fuel, env, .stmt s, m⟩ = none) :
    (g.interpAt (fuel + 1)).exec env s m = (g.interpAt fuel).execStep env s m := by
  simp only [interpAt, before, bind_assoc, Run.get_bind_apply, h, pure_bind]

lemma exec_of_some {s : Stmt Depth} (h : g ⟨fuel, env, .stmt s, m⟩ = some signal) :
    (g.interpAt (fuel + 1)).exec env s m = .error signal m := by
  simp only [interpAt, before, bind_assoc, Run.get_bind_apply, h]
  rfl

lemma stops_of_none (h : g ⟨fuel, env, p, m⟩ = none) :
    (g.interpAt (fuel + 1)).Stops env p m signal ↔ (g.interpAt fuel).step.Stops env p m signal := by
  cases p with
  | expr e => simp only [Interp.Stops, eval_of_none h, Interp.step]
  | stmt s => simp only [Interp.Stops, exec_of_none h, Interp.step]

lemma stops_of_some {signal' : Signal} (h : g ⟨fuel, env, p, m⟩ = some signal) :
    (g.interpAt (fuel + 1)).Stops env p m signal' ↔ signal' = signal := by
  cases p with
  | expr e => simp [Interp.Stops, eval_of_some h, eq_comm]
  | stmt s => simp [Interp.Stops, exec_of_some h, eq_comm]

/-- A guard that stops nowhere changes nothing. -/
lemma interpAt_pass (fuel : Nat) : pass.interpAt fuel = KScript.interpAt fuel := by
  induction fuel with
  | zero => rfl
  | succ fuel ih =>
      have heval : (pass.interpAt (fuel + 1)).eval = (KScript.interpAt fuel).evalStep := by
        funext env e m
        rw [eval_of_none rfl, ih]
      have hexec : (pass.interpAt (fuel + 1)).exec = (KScript.interpAt fuel).execStep := by
        funext env s m
        rw [exec_of_none rfl, ih]
      rw [interpAt_succ, Interp.step, ← heval, ← hexec]
      rfl

lemma run_pass (fuel : Nat) (program : Program Depth) : pass.run fuel program = Program.run fuel program := by
  rw [run, interpAt_pass, Program.run_eq]

/-- **Two guards that differ only where the first cuts the phrase short.**  What is evaluated under the first
is evaluated alike under the second, up to where it is cut short. -/
theorem shorter (h : ∀ x, g x = g' x ∨ ∃ signal, S signal ∧ x.Stops g.interpAt signal) :
    ∀ fuel, Interp.Shorter S (g.interpAt fuel) (g'.interpAt fuel)
  | 0 => ⟨rfl, fun _ _ => .refl _, fun _ _ => .refl _⟩
  | fuel + 1 =>
    { fuel := rfl
      eval := fun env e m => by
        rcases h ⟨fuel, env, .expr e, m⟩ with heq | ⟨signal, hsignal, m', hstops⟩
        · cases hg : g ⟨fuel, env, .expr e, m⟩ with
          | none =>
              rw [eval_of_none hg, eval_of_none (heq.symm.trans hg)]
              exact (shorter h fuel).evalStep env e m
          | some signal => exact .inl ((eval_of_some hg).trans (eval_of_some (heq.symm.trans hg)).symm)
        · exact .inr ⟨signal, m', hsignal, hstops⟩
      exec := fun env s m => by
        rcases h ⟨fuel, env, .stmt s, m⟩ with heq | ⟨signal, hsignal, m', hstops⟩
        · cases hg : g ⟨fuel, env, .stmt s, m⟩ with
          | none =>
              rw [exec_of_none hg, exec_of_none (heq.symm.trans hg)]
              exact (shorter h fuel).execStep env s m
          | some signal => exact .inl ((exec_of_some hg).trans (exec_of_some (heq.symm.trans hg)).symm)
        · exact .inr ⟨signal, m', hsignal, hstops⟩ }

/-- Two guards that differ only where the first stops with that signal. -/
lemma run_shorter (g g' : Guard) (signal : Signal) (h : ∀ x, g x = g' x ∨ g x = some signal) (fuel : Nat)
    (program : Program Depth) (m : Machine) : g.run fuel program m = g'.run fuel program m
      ∨ ∃ m', g.run fuel program m = .error signal m' := by
  have hshorter := shorter (S := (· = signal)) (fun x => (h x).imp_right fun hx =>
    ⟨signal, rfl, (stops_of_some hx).mpr rfl⟩) fuel
  rcases hshorter.run program m with heq | ⟨_, m', rfl, hrun⟩
  · exact .inl heq
  · exact .inr ⟨m', hrun⟩

lemma run_stopAt (kind : Begun → Prop) (signal : Signal) (fuel : Nat) (program : Program Depth)
    (m : Machine) : (stopAt kind signal).run fuel program m = Program.run fuel program m
      ∨ ∃ m', (stopAt kind signal).run fuel program m = .error signal m' := by
  rw [← run_pass]
  refine run_shorter _ _ _ (fun x => ?_) fuel program m
  by_cases hx : kind x
  · exact .inr (stopAt_of hx)
  · exact .inl (stopAt_of_not hx)

end Guard

/-! ## Phrases that a run comes to -/

/-- The run of a program comes to a phrase of that kind. -/
def Program.Begins (kind : Begun → Prop) (fuel : Nat) (program : Program Depth) (m : Machine) : Prop :=
  ∀ signal, ∃ m', (Guard.stopAt kind signal).run fuel program m = .error signal m'

/-- At all phrases that the run of a program comes to, that holds: a guard that would stop at others changes
nothing. -/
def Program.Always (P : Begun → Prop) (fuel : Nat) (program : Program Depth) (m : Machine) : Prop :=
  ∀ signal, (Guard.stopAt (fun x => ¬P x) signal).run fuel program m = Program.run fuel program m

namespace Program.Begins

open Guard

variable {kind : Begun → Prop}

lemma mono {kind' : Begun → Prop} (h : Program.Begins kind fuel program m)
    (himp : ∀ x, kind x → kind' x) : Program.Begins kind' fuel program m := by
  intro signal
  have hshorter := run_shorter (stopAt kind' signal) (stopAt kind signal) signal
    (fun x => by
      by_cases hx : kind' x
      · exact .inr (stopAt_of hx)
      · exact .inl ((stopAt_of_not hx).trans (stopAt_of_not fun hkind => hx (himp x hkind)).symm))
    fuel program m
  rcases hshorter with heq | hstop
  · rw [heq]
    exact h signal
  · exact hstop

/-- There is a signal beside any two. -/
lemma exists_other (a b : Signal) : ∃ c : Signal, c ≠ a ∧ c ≠ b := by
  by_contra h
  push Not at h
  have h0 := h .exhausted
  have h1 := h (.exit 0)
  have h2 := h (.exit 1)
  grind +splitImp

open Classical in
/-- **What holds whenever a phrase is begun, holds at those that are begun of a kind.** -/
theorem and_always {always : Begun → Prop} (h : Program.Begins kind fuel program m)
    (halways : Program.Always always fuel program m) :
    Program.Begins (fun x => kind x ∧ always x) fuel program m := by
  intro signal
  obtain ⟨other, hother, hplain⟩ : ∃ other, other ≠ signal
      ∧ ∀ m', Program.run fuel program m ≠ .error other m' := by
    cases hrun : Program.run fuel program m with
    | ok a next => exact (exists_other signal signal).imp fun _ h => ⟨h.1, fun _ heq => by cases heq⟩
    | error final next =>
        refine (exists_other signal final).imp fun _ h => ⟨h.1, fun _ heq => ?_⟩
        cases heq
        exact h.2 rfl
  -- a guard that stops at the first phrase of the kind, but with another signal where something fails to hold
  let both : Guard := fun x => if always x then stopAt kind signal x else some other
  have hboth : ∃ m', both.run fuel program m = .error signal m' := by
    have hkind := run_shorter both (stopAt kind signal) other
      (fun x => by by_cases hx : always x <;> simp [both, hx]) fuel program m
    have hnever := run_shorter both (stopAt (fun x => ¬always x) other) signal
      (fun x => by by_cases hx : always x <;> by_cases hk : kind x <;> simp [both, stopAt, hx, hk])
      fuel program m
    rw [halways other] at hnever
    rcases hkind with heq | ⟨m', hstop⟩
    · exact heq ▸ h signal
    · exact hnever.resolve_left fun heq => hplain m' (heq ▸ hstop)
  have hand := run_shorter both (stopAt (fun x => kind x ∧ always x) signal) other
    (fun x => by by_cases hx : always x <;> by_cases hk : kind x <;> simp [both, stopAt, hx, hk])
    fuel program m
  obtain ⟨m', hm'⟩ := hboth
  rcases hand with heq | ⟨last, hlast⟩
  · exact ⟨m', heq ▸ hm'⟩
  · cases hlast.symm.trans hm'
    exact absurd rfl hother

end Program.Begins

end KScript

import KScript.Proofs.Session.Reached

/-!
# Scopes and frames agree in every session

The scopes that are open at a place of a program and the frames that are in sight when the place is
reached are two descriptions of one thing, found by two traversals that know nothing of each other.  Here
they are put together for whole sessions, with closures that outlive their block or their script.
-/

namespace KScript

open Scope

/-- An assignment binds its name in the frame that its depth leads to, bound before or not. -/
lemma Reference.write_binds {ref : Reference Depth} {env : Env} {d : Nat} {address : Address}
    (hbound : ref.bound = some d) (haddress : env[d]? = some address) (v : Value) (m : Machine) :
    ref.write env v m
      = .ok () { m with frames := m.frames.define address ref.name.lexeme v } := by
  obtain ⟨name, bound⟩ := ref
  cases hbound
  unfold Reference.write
  simp only [haddress]
  rfl

/-- The name over which a script broke down, if it did. -/
def Outcome.unboundName? : Outcome → Option String
  | .crashed (.unbound name) => some name
  | _ => none

lemma Outcome.eq_of_unboundName? {o : Outcome} {name : String} (h : o.unboundName? = some name) :
    o = .crashed (.unbound name) := by
  unfold Outcome.unboundName? at h
  split at h
  · cases h
    rfl
  · cases h

namespace Session

/-- How a watch for the moments at which a name may be lacking compares with the plain run. -/
noncomputable def lacking (U : List Use) (name : String) (signal : Signal) : Comparison U where
  watch := Watch.stopAt (Moment.MayLack U name) signal
  signal := signal
  mayStop := True
  Natural s := s ≠ .crash (.unbound name)
  failure := by simp
  exit := by simp
  exhausted := by simp
  rounding := by simp
  stops x s _ hstop := by
    unfold Watch.stopAt at hstop
    split at hstop
    · cases hstop
      exact ⟨trivial, rfl⟩
    · cases hstop
  unbound x key _ hlack hwatch := by
    intro heq
    cases heq
    simp [Watch.stopAt, hlack] at hwatch

/-- A run breaks down over a name only at a moment at which the name may be lacking. -/
lemma passes_of_unbound {U : List Use} {program : Program Unit} {m last : Machine} {name : String}
    (hadmitted : Stmt.AdmittedAll U topLevel program) (hs : m.Sound U) {fuel : Nat}
    (hrun : Program.run fuel (Stmt.resolveAll topLevel program) m
      = .error (.crash (.unbound name)) last) :
    Program.Passes (Moment.MayLack U name) fuel (Stmt.resolveAll topLevel program) m := by
  intro signal
  have htie := Watch.run_tie (lacking U name signal) fuel Context.settled_topLevel hadmitted hs
    (Frames.Mirror.global m.frames)
  rcases htie with ⟨-, hstop⟩ | ⟨-, hends⟩
  · exact hstop
  · rw [hrun] at hends
    exact absurd rfl hends.2

lemma runScript_outcome {s : Session} {source : String} (haccepted : (prepare source).1 = [])
    (echo : Bool) : (s.runScript source echo).1.outcome
      = (runProgram s.machine (echoed echo (prepare source).2)).1 := by
  have hpair : prepare source = ([], (prepare source).2) := by rw [← haccepted]
  unfold runScript
  rw [hpair]

lemma error_of_crashed {m : Machine} {program : Program Depth} {crash : Crash}
    (h : (runProgram m program).1 = .crashed crash) :
    ∃ last, Program.run fuel program (ready m) = .error (.crash crash) last := by
  unfold runProgram at h
  cases hrun : Program.run fuel program (ready m) with
  | ok _ next => simp [hrun] at h
  | error signal next =>
      rw [hrun] at h
      cases signal with
      | crash c =>
          simp only [outcomeOf, Outcome.crashed.injEq] at h
          exact ⟨next, by rw [h]⟩
      | _ => cases h

/-- **Scopes and frames agree.**  Whatever scripts a session has run, and whatever accepted script it runs
next:

* at every moment at which a reference is evaluated, the environment has one frame for each scope around
  the place of the reference, in order, and the global one at the end, and the frame of the scope in which
  the name was found binds it, unless the name is given its first value there: to demand this at every
  moment, on pain of any signal, does not change the run;
* an assignment that is evaluated at such a moment binds its name in that frame;
* so no run leaves the chain of frames;
* and a run breaks down over a name that a frame does not bind only where a variable is stepped in its own
  initial value, or where `super` is used in a static method of a class inside a method of another. -/
theorem scopes_agree {sources : List String} {s : Session} (hs : Reached sources s) {source : String}
    (haccepted : (prepare source).1 = []) (echo : Bool) :
    let program := echoed echo (prepare source).2
    let U := uses (source :: sources)
    (∀ n signal, (Watch.stopAt (fun x => ¬x.Agrees U) signal).run n program (ready s.machine)
        = Program.run n program (ready s.machine))
      ∧ (∀ x : Moment, x.Agrees U → ∀ d, x.ref.bound = some d → ∀ v m, ∃ address,
          x.env[d]? = some address ∧ x.ref.write x.env v m
            = .ok () { m with frames := m.frames.define address x.ref.name.lexeme v })
      ∧ (s.runScript source echo).1.outcome ≠ .crashed .offChain
      ∧ ∀ name, (s.runScript source echo).1.outcome = .crashed (.unbound name) →
          Program.Passes (Moment.MayLack U name) fuel program (ready s.machine) := by
  intro program U
  have hU : ∀ src ∈ source :: sources, usesOf src ⊆ U := fun src hsrc => usesOf_subset_uses hsrc
  have hsound : (ready s.machine).Sound U :=
    (hs.sound fun src hsrc => hU src (List.mem_cons_of_mem _ hsrc)).congr rfl rfl
  have hadmitted := admitted_of_accepted haccepted (hU source List.mem_cons_self)
  obtain ⟨shown, hshown, hadmitted'⟩ := echoed_resolve echo hadmitted
  have hprogram : program = Stmt.resolveAll topLevel shown := by
    rw [← hshown, ← (prepare_accepted haccepted).2.2]
  have hagree := fun n signal => run_agreement hadmitted' hsound n signal
  rw [runScript_outcome haccepted, show echoed echo (prepare source).2 = _ from hprogram, hprogram]
  refine ⟨fun n signal => (hagree n signal).1, ?_, ?_, ?_⟩
  · intro x hx d hd v m
    obtain ⟨_, _, _, _, address, haddress, _⟩ := hx d hd
    exact ⟨address, haddress, Reference.write_binds hd haddress v m⟩
  · intro hcrash
    obtain ⟨last, hrun⟩ := error_of_crashed hcrash
    obtain ⟨-, hends⟩ := hagree fuel .exhausted
    rw [hrun] at hends
    exact hends.2 rfl
  · intro name hcrash
    obtain ⟨last, hrun⟩ := error_of_crashed hcrash
    exact passes_of_unbound hadmitted' hsound hrun

/-- A routine that keeps its variable, and a call of it from another script. -/
def keeperScript : String :=
  "sub keep() \x7b var x = true; sub peek() \x7b return x; \x7d return peek; \x7d var f = keep();"

/-- A variable that is stepped in its own initial value, next to a call of the routine. -/
def selfStepScript : String := "\x7b var y = f(); \x7b var x = inc x; \x7d \x7d"

theorem scopes_agree_selfStepScript :
    let s := ((Session.new true false "" 0).runScript keeperScript false).2
    let program := echoed false (prepare selfStepScript).2
    Reached [keeperScript] s ∧ (prepare selfStepScript).1 = []
      ∧ (∀ n signal, (Watch.stopAt (fun x => ¬x.Agrees (uses [selfStepScript, keeperScript]))
          signal).run n program (ready s.machine) = Program.run n program (ready s.machine))
      ∧ (s.runScript selfStepScript false).1.outcome = .crashed (.unbound "x")
      ∧ Program.Passes (Moment.MayLack (uses [selfStepScript, keeperScript]) "x") fuel program
          (ready s.machine) := by
  intro s program
  have hs : Reached [keeperScript] s := .run (.new true false "" 0) keeperScript false
  have haccepted : (prepare selfStepScript).1 = [] := by decide +kernel
  have hcrash : (s.runScript selfStepScript false).1.outcome = .crashed (.unbound "x") :=
    Outcome.eq_of_unboundName? (by decide +kernel)
  have hagree := scopes_agree hs haccepted false
  exact ⟨hs, haccepted, hagree.1, hcrash, hagree.2.2.2 "x" hcrash⟩

/-- `super` in a static method of a class inside a method: no receiver is bound next to the superclass. -/
example : ((Session.new true false "" 0).runScript ("class A \x7b m() \x7b\x7d \x7d class B \x7b n() \x7b "
    ++ "class D <- A \x7b static s() \x7b return super.m; \x7d \x7d return D.s(); \x7d \x7d B().n();")
    false).1.outcome.unboundName? = some thisName := by decide +kernel

end Session

end KScript

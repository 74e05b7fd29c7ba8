import KScript.Proofs.Session.Rejected
import KScript.Proofs.Walk.Evaluation

/-!
# What is restored, and what a trace tells

However an expression, a statement or a call ends, the environment in force is the one before.  The calls
that are listed are those before; after a signal the calls that it has cut short are in front of them.  So
every script of a session starts and ends in the environment of the top level, and the trace of a failure
tells the calls of its own script that were cut short and nothing of what earlier scripts have left listed.
-/

namespace KScript

/-- From the scene, a walk and a run have ended alike; the register is as before, and the calls are as
before with those in front that were cut short. -/
inductive Scene.Restored {α : Type} (s : Scene) :
    EStateM.Result Halt Scene α → EStateM.Result Signal Machine α → Prop where
  | ok {a : α} {t : Scene} (env : t.env = s.env) (calls : t.machine.calls = s.machine.calls) :
      Restored s (.ok a t) (.ok a t.machine)
  | error {halt : Halt} {t : Scene} (env : t.env = s.env)
      (calls : t.machine.calls = halt.opened ++ s.machine.calls) :
      Restored s (.error halt t) (.error halt.signal t.machine)

/-! ## One phrase -/

/-- Every machine carries nothing but code. -/
lemma Machine.carries_all (m : Machine) : m.Carries Code.all.Holds :=
  fun _ _ _ _ _ _ _ _ => trivial

/-- A walk that follows a run restores what it has to. -/
lemma Walk.Follows.restored {α : Type} {s : Scene} {x : Walk α} {y : Run α} {Q : α → Prop}
    (h : Walk.Follows Code.all (fun _ _ => True) s.env x y Q) : s.Restored (x s) (y s.machine) := by
  have hxy := h s.machine s.past s.machine.carries_all
  generalize x ⟨s.env, s.machine, s.past⟩ = r at hxy ⊢
  generalize y s.machine = r' at hxy ⊢
  cases hxy with
  | ok went calls _ _ => exact .ok went.env calls
  | error went calls _ _ => exact .error went.env calls

/-! ## Traces -/

namespace Outcome

/-- The trace of the calls that are active, outermost first: all of them if they are not too many, or else
the last ones. -/
def traceOf (active : List CallRecord) : Option String :=
  if active = [] then none
  else if active.length ≤ traceLimit then
    some ("K# stacktrace: " ++ " ".intercalate (active.map callText))
  else
    some ("K# stacktrace: "
      ++ " ".intercalate ("..." :: (active.drop (active.length - traceLimit)).map callText))

lemma traceText_eq (calls : List CallRecord) : traceText calls = traceOf calls.reverse := by
  unfold traceText traceOf
  by_cases hempty : calls = []
  · simp [hempty]
  by_cases hfew : calls.length ≤ traceLimit
  · simp [hempty, hfew, List.take_of_length_le hfew, Nat.not_lt.mpr hfew]
  · have hdrop : calls.reverse.drop (calls.length - traceLimit) = (calls.take traceLimit).reverse := by
      rw [List.drop_reverse]
      congr 2
      omega
    simp [hempty, hfew, Nat.lt_of_not_le hfew, hdrop]

end Outcome

/-! ## Scripts -/

namespace Session

/-- A walk through a script from the environment of the top level ends there, on the same machine and with
the same outcome as the script itself. -/
lemma walk_runScript (s : Session) (past : List Footprint) (step : Step) :
    let walked := Walk.runScript ⟨Machine.globalEnv, s.machine, past⟩ step
    walked.1 = (s.runScript step.1 step.2).1.outcome ∧ walked.2.env = Machine.globalEnv
      ∧ walked.2.machine = (s.runScript step.1 step.2).2.machine := by
  obtain ⟨source, echo⟩ := step
  rcases hprepare : prepare source with ⟨_ | ⟨report, reports⟩, program⟩
  · have hfollows : Walk.Follows Code.all (fun _ _ => True) Machine.globalEnv
        (Walk.run fuel (echoed echo program)) (Program.run fuel (echoed echo program))
        fun _ => True := Walk.run_follows fuel fun _ _ => trivial
    have hrestored := hfollows.restored (s := ⟨Machine.globalEnv, ready s.machine, past⟩)
    simp only [Walk.runScript, runScript, hprepare, runProgram, tell] at hrestored ⊢
    generalize Walk.run fuel (echoed echo program) ⟨Machine.globalEnv, ready s.machine, past⟩ = r
      at hrestored ⊢
    generalize Program.run fuel (echoed echo program) (ready s.machine) = r' at hrestored ⊢
    cases hrestored with
    | ok env _ => exact ⟨rfl, env, rfl⟩
    | @error halt t env calls =>
        -- the list of calls was empty at the start
        have hopened : t.machine.calls = halt.opened := calls.trans (List.append_nil _)
        dsimp only
        exact ⟨by rw [hopened], env, rfl⟩
  · simp [Walk.runScript, runScript, hprepare, tell]

/-- The same for scripts one after the other. -/
lemma walk_runScripts (s : Session) (past : List Footprint) (steps : List Step) :
    let walked := Walk.runScripts ⟨Machine.globalEnv, s.machine, past⟩ steps
    walked.1 = (s.rows steps).map (·.report.outcome) ∧ walked.2.env = Machine.globalEnv := by
  induction steps generalizing s past with
  | nil => exact ⟨rfl, rfl⟩
  | cons step steps ih =>
      obtain ⟨houtcome, henv, hmachine⟩ := s.walk_runScript past step
      simp only [Walk.runScripts, rows, List.map_cons]
      generalize Walk.runScript ⟨Machine.globalEnv, s.machine, past⟩ step = walked
        at houtcome henv hmachine ⊢
      obtain ⟨outcome, env, machine, past'⟩ := walked
      obtain rfl : env = Machine.globalEnv := henv
      obtain rfl : machine = (s.runScript step.1 step.2).2.machine := hmachine
      obtain ⟨houtcomes, hlast⟩ := ih (s.runScript step.1 step.2).2 past'
      exact ⟨by rw [houtcomes, ← houtcome], hlast⟩

end Session

end KScript

import KScript.Proofs.Session.Completions
import KScript.Proofs.Walk.Evaluation

/-!
# Walks through the scripts of a session

What a reached session can run are the phrases of its accepted scripts: the routines on its machine were
declared by them.  So a walk through an accepted script leaves footprints only of phrases that stand in one
of the scripts so far (`Session.Reached.walk`).
-/

namespace KScript

namespace Session

/-- The phrases of the accepted scripts. -/
def code (sources : List String) : Code where
  Has p := ∃ around, Stands sources around p
  part := by
    rintro p q ⟨around, hstands⟩ hq
    obtain ⟨⟨entered, _⟩, hbelow, rfl⟩ := List.mem_map.mp hq
    exact ⟨entered ++ around, hstands.part hbelow⟩

variable {sources : List String} {s : Session} {source : String}

/-- A walk through an accepted script on a machine that carries the code. -/
lemma walk_accepted (hsource : source ∈ sources) (haccepted : (prepare source).1 = []) (echo : Bool)
    {m : Machine} (hm : m.Carries (code sources).Holds) :
    Walk.Tells (code sources) (fun _ _ => False) ⟨Machine.globalEnv, ready m, []⟩ (fun _ => True)
      (Walk.run fuel (echoed echo (prepare source).2) ⟨Machine.globalEnv, ready m, []⟩)
      (Program.run fuel (echoed echo (prepare source).2) (ready m)) := by
  refine Walk.run_follows fuel (fun stmt hstmt => ?_) (ready m) [] (hm.congr rfl rfl)
  exact ⟨[], source, hsource, haccepted, echo, .top hstmt⟩

/-- **The machine of a reached session carries the code of its scripts.** -/
theorem Reached.carries_code (h : Reached sources s) {all : List String} (hall : sources ⊆ all) :
    s.machine.Carries (code all).Holds := by
  induction h with
  | new natives tracing input clock => exact carries_newMachine natives tracing input clock
  | @run sources s h source echo ih =>
      obtain ⟨hsource, hsources⟩ := List.cons_subset.mp hall
      unfold runScript
      split
      · next program hprepare =>
          have haccepted : (prepare source).1 = [] := by rw [hprepare]
          have hwalk := walk_accepted hsource haccepted echo (ih hsources)
          rw [hprepare] at hwalk
          dsimp only [tell, runProgram] at hwalk ⊢
          generalize Walk.run fuel (echoed echo program) ⟨Machine.globalEnv, ready s.machine, []⟩ = r
            at hwalk
          generalize Program.run fuel (echoed echo program) (ready s.machine) = r' at hwalk ⊢
          cases hwalk with
          | ok _ _ carries _ => exact carries
          | error _ _ carries _ => exact carries
      · exact ih hsources

/-- **A walk through a script of a reached session** leaves footprints of the scripts so far, and what the
script fails for want of is missed by one of them. -/
theorem Reached.walk (h : Reached sources s) (source : String) (echo : Bool) :
    let walked := Walk.runScript ⟨Machine.globalEnv, s.machine, []⟩ (source, echo)
    ∃ new, Scene.Went (code (source :: sources)) ⟨Machine.globalEnv, s.machine, []⟩ new walked.2
      ∧ ∀ line name calls, walked.1 = .failed line (.undefinedVariable name) calls →
          Walk.Missed new line name := by
  rcases hprepare : prepare source with ⟨_ | ⟨report, reports⟩, program⟩
  · have haccepted : (prepare source).1 = [] := by rw [hprepare]
    have hwalk := walk_accepted List.mem_cons_self haccepted echo
      (h.carries_code (List.subset_cons_self source sources))
    simp only [Walk.runScript, hprepare] at hwalk ⊢
    generalize Walk.run fuel (echoed echo program) ⟨Machine.globalEnv, ready s.machine, []⟩ = r
      at hwalk ⊢
    generalize Program.run fuel (echoed echo program) (ready s.machine) = r' at hwalk
    cases hwalk with
    | @ok _ t new went _ _ _ =>
        exact ⟨new, ⟨went.env, went.past, went.code, went.fields⟩, fun _ _ _ heq => by cases heq⟩
    | @error halt t new went _ _ missed =>
        refine ⟨new, ⟨went.env, went.past, went.code, went.fields⟩, fun line name calls heq => ?_⟩
        have hsignal : halt.signal = .failure line (.undefinedVariable name) := by
          dsimp only at heq
          cases hcause : halt.signal <;> simp_all [outcomeOf]
        exact (missed line name hsignal).resolve_left id
  · simp only [Walk.runScript, hprepare]
    exact ⟨[], .still fun _ => rfl, fun _ _ _ heq => by cases heq⟩

end Session

end KScript

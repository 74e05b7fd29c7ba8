import KScript.Proofs.Grammar.Parts
import KScript.Proofs.Jump.Targets
import KScript.Proofs.Session.Reached

/-!
# No completion is lost

The evaluator passes on by hand how statements end: a loop looks at how its body ended, and a call
and the top level drop whatever reaches them other than a value that is given back.  In accepted scripts
nothing else ever reaches them (`Session.completions_kept`), and every jump ends where it should.
-/

namespace KScript

open Run (Agree Same)

variable {K : Routine (Stmt Depth) → Prop}

/-! ## Code of reached sessions -/

namespace Session

lemma carries_newMachine (natives tracing : Bool) (input : String) (clock : Float) :
    (newMachine natives tracing input clock).Carries K := by
  rintro (address | ident)
  · cases address with
    | zero =>
        change Table.All _ (if natives then Native.table else Table.empty)
        split
        · refine .ofList fun entry hentry => ?_
          obtain ⟨n, -, rfl⟩ := List.mem_map.mp hentry
          simp
        · exact .empty
    | succ address => exact .empty
  · exact .empty

lemma bringsAll_echoed (echo : Bool) {program : Program Depth} (h : Stmt.BringsAll K program) :
    Stmt.BringsAll K (echoed echo program) := by
  unfold echoed
  split
  · cases echo <;> nofun
  · exact h

/-- If all scripts bring code of a closed kind, then all code of the session is of that kind. -/
theorem Reached.carries (hK : ∀ r, K r → Stmt.BringsAll K r.body)
    (hscripts : ∀ source, (prepare source).1 = [] → Stmt.BringsAll K (prepare source).2)
    {sources : List String} {s : Session} (h : Reached sources s) : s.machine.Carries K := by
  induction h with
  | new natives tracing input clock => exact carries_newMachine natives tracing input clock
  | @run sources s h source echo ih =>
      unfold runScript
      split
      · next program hprepare =>
          have hprogram : Stmt.BringsAll K program := by
            simpa [hprepare] using hscripts source (by rw [hprepare])
          have hready : (ready s.machine).Carries K := ih.congr rfl rfl
          have hkeeps := Program.run_obeys (P := Policy.carrying K) hK fuel (bringsAll_echoed echo hprogram)
          have hends := (hkeeps.elim (fun _ => id) hready).2
          dsimp only [tell, runProgram]
          cases hrun : Program.run fuel (echoed echo program) (ready s.machine) with
          | ok _ next =>
              rw [hrun] at hends
              exact hends.1
          | error signal next =>
              rw [hrun] at hends
              exact hends
      · exact ih

end Session

/-! ## Accepted programs -/

lemma Stmt.enclosedAll_iff {ss : List (Stmt Depth)} :
    Stmt.EnclosedAll ss ↔ ∀ s ∈ ss, s.Enclosed := by
  induction ss with
  | nil => simp [Stmt.EnclosedAll]
  | cons s rest ih => simp [Stmt.EnclosedAll, ih]

lemma Stmt.not_mem_exitsAll_iff {x : Exit} {ss : List (Stmt Depth)} :
    x ∉ Stmt.exitsAll ss ↔ ∀ s ∈ ss, x ∉ s.exits := by
  induction ss with
  | nil => simp [Stmt.exitsAll]
  | cons s rest ih => simp [Stmt.exitsAll, ih]

/-- The routines that a statement itself declares are enclosed if it is. -/
lemma Stmt.Enclosed.ownRoutines {s : Stmt Depth} (h : s.Enclosed) :
    ∀ r ∈ s.ownRoutines, r.Enclosed := by
  cases s with
  | routine decl =>
      rintro r (_ | ⟨_, ⟨⟩⟩)
      exact h
  | classDecl name superclass methods statics getters setters =>
      obtain ⟨hm, hs, hg, ht⟩ := h
      simp only [Stmt.enclosedRoutines_iff] at hm hs hg ht
      simp only [Stmt.ownRoutines, List.forall_mem_append]
      exact ⟨⟨⟨hm, hs⟩, hg⟩, ht⟩
  | _ => simp [Stmt.ownRoutines]

lemma Stmt.hereditary_enclosed : Stmt.Hereditary (Stmt.Enclosed : Stmt Depth → Prop) where
  block h := Stmt.enclosedAll_iff.mp h
  branch h := by
    refine ⟨h.1, ?_⟩
    rintro s ⟨⟩
    exact h.2
  loop h := h
  forLoop h := h
  routines h r hr := Stmt.enclosedAll_iff.mp (h.ownRoutines r hr).2

lemma Program.enclosed_of_mem_routines {program : Program Depth} (h : Stmt.EnclosedAll program)
    {r : Routine (Stmt Depth)} (hr : r ∈ program.routines) : r.Enclosed := by
  obtain ⟨s, hs, hown⟩ := List.mem_flatMap.mp hr
  have hall := Stmt.hereditary_enclosed.statements (Stmt.enclosedAll_iff.mp h)
  exact (hall s hs).ownRoutines r hown

namespace Session

/-- In an accepted program all code is enclosed, and the top level is not left before its end. -/
structure Closed (program : Program Depth) : Prop where
  enclosed : Stmt.EnclosedAll program
  jump : .jump ∉ Stmt.exitsAll program
  giveBack : .giveBack ∉ Stmt.exitsAll program

lemma closed_of_accepted {source : String} (h : (prepare source).1 = []) :
    Closed (prepare source).2 := by
  obtain ⟨hreports, hcheck, hprogram⟩ := prepare_accepted h
  have hwell : Stmt.WellFormedAll Parser.topLevel (Parsed.ofSource source).program :=
    Stmt.wellFormedAll_of_spells (Parsed.spells_of_reports_eq_nil hreports)
  obtain ⟨hjump, henclosed⟩ := Stmt.enclosedAll_resolve Scope.topLevel hwell
  rw [hprogram]
  exact ⟨henclosed, hjump rfl, Stmt.giveBack_not_mem_exitsAll rfl hcheck⟩

lemma Closed.echoed {program : Program Depth} (h : Closed program) (echo : Bool) :
    Closed (echoed echo program) := by
  unfold Session.echoed
  split
  · cases echo <;> exact ⟨⟨trivial, trivial⟩, List.not_mem_nil, List.not_mem_nil⟩
  · exact h

/-- The code of a reached session is enclosed. -/
lemma Reached.carries_enclosed {sources : List String} {s : Session} (h : Reached sources s) :
    s.machine.Carries Routine.Enclosed :=
  h.carries (fun _ => Targets.bringsAll_body) fun _ haccepted =>
    Targets.bringsAll_of_enclosedAll (closed_of_accepted haccepted).enclosed

end Session

/-- A closed program runs the same if its jumps go to their targets. -/
lemma Targets.same_run (lost : Signal) (fuel : Nat) {program : Program Depth}
    (h : Session.Closed program) :
    Same Routine.Enclosed (Program.run fuel program) (Targets.run lost fuel program) := by
  obtain ⟨henclosed, hjump, hreturn⟩ := h
  induction program with
  | nil => exact .refl _
  | cons s rest ih =>
      rw [Stmt.not_mem_exitsAll_iff, List.forall_mem_cons, ← Stmt.not_mem_exitsAll_iff] at hjump hreturn
      have hbrings := Targets.brings_of_enclosed henclosed.1
      have hsame := (Targets.same_execAt lost fuel).2 Machine.globalEnv s (ofTopLevel lost) hbrings
      have hgo := bind_go_ofTopLevel lost (interpAt_exits fuel Machine.globalEnv s) hjump.1 hreturn.1
      rw [hgo] at hsame
      have hagree : Agree Routine.Enclosed (KScript.execAt fuel Machine.globalEnv s)
          (Targets.execAt lost fuel Machine.globalEnv s (ofTopLevel lost))
          (Completion.Carries Routine.Enclosed) := by
        exact ((Targets.interpAt_keeps fuel).exec s hbrings (.carrying Machine.globalEnv)).congr hsame
      exact hagree.bind_same fun _ _ => ih henclosed.2 hjump.2 hreturn.2

namespace Session

/-- **No completion is lost, and none crosses its construct.**  In every session that can be reached, for
every script that is accepted:

- executing a statement of the top level, in any state, ends normally if it ends;
- executing the body of a routine of the script, in any state, ends normally or with a value that is
  given back;
- the script runs as if no statement told how it ended: as if a `break` went on after the innermost loop
  around it in its own body, a `continue` with the next turn of that loop, after the last clause of a
  `for`, a `return` out of its own body; and as if the run was cut short where such a place is missing,
  in this script or in a routine of an earlier one. -/
theorem completions_kept {sources : List String} {s : Session} (hs : Reached sources s)
    {source : String} (haccepted : (prepare source).1 = []) (echo : Bool) :
    let program := echoed echo (prepare source).2
    (∀ stmt ∈ program, ∀ n env, Run.Gives (execAt n env stmt) (· = .normal))
      ∧ (∀ r ∈ program.routines, ∀ n env, Run.Gives ((interpAt n).execAll env r.body)
          fun c => c = .normal ∨ ∃ v, c = .returned v)
      ∧ ∀ n lost, Targets.run lost n program (ready s.machine)
          = Program.run n program (ready s.machine) := by
  intro program
  have hclosed : Closed program := (closed_of_accepted haccepted).echoed echo
  refine ⟨fun stmt hstmt n env m c m' hrun => ?_, fun r hr n env m c m' hrun => ?_,
    fun n lost => ?_⟩
  · have hc := interpAt_exits n env stmt m c m' hrun
    have hjump := Stmt.not_mem_exitsAll_iff.mp hclosed.jump stmt hstmt
    have hreturn := Stmt.not_mem_exitsAll_iff.mp hclosed.giveBack stmt hstmt
    cases c with
    | normal => rfl
    | broke | continued => exact absurd (hc _ rfl) hjump
    | returned v => exact absurd (hc _ rfl) hreturn
  · have hc := (interpAt_exits n).execAll env r.body m c m' hrun
    have hjump := (Program.enclosed_of_mem_routines hclosed.enclosed hr).1
    cases c with
    | normal => exact .inl rfl
    | broke | continued => exact absurd (hc _ rfl) hjump
    | returned v => exact .inr ⟨v, rfl⟩
  · have hready : (ready s.machine).Carries Routine.Enclosed := hs.carries_enclosed.congr rfl rfl
    exact (Targets.same_run lost n hclosed _ hready).symm

/-- A routine that leaves two loops at once. -/
def leavingScript : String :=
  "sub first(a) \x7b while (true) \x7b for (;true;) \x7b if (a) return a; break; \x7d return zilch; \x7d \x7d"

/-- A loop that goes on and is ended after a call of the routine. -/
def callingScript : String :=
  "var x = true; while (true) \x7b x = first(x); if (x) \x7b x = false; continue; \x7d break; \x7d"

theorem completions_kept_callingScript :
    let s := ((Session.new true false "" 0).runScript leavingScript false).2
    let program := echoed false (prepare callingScript).2
    Reached [leavingScript] s ∧ (prepare callingScript).1 = []
      ∧ (s.runScript callingScript false).1.outcome.reports = []
      ∧ (∀ stmt ∈ program, ∀ n env, Run.Gives (execAt n env stmt) (· = .normal))
      ∧ ∀ n lost, Targets.run lost n program (ready s.machine)
          = Program.run n program (ready s.machine) := by
  intro s program
  have hs : Reached [leavingScript] s := .run (.new true false "" 0) leavingScript false
  have haccepted : (prepare callingScript).1 = [] := by decide +kernel
  have hkept := completions_kept hs haccepted false
  exact ⟨hs, haccepted, by decide +kernel, hkept.1, hkept.2.2⟩

end Session

end KScript

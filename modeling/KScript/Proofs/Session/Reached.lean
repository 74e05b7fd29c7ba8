import KScript.Proofs.Eval.Agreement
import KScript.Proofs.Grammar.Names
import KScript.Proofs.Parser.RoundTrip
import KScript.Session

/-!
# The sessions that can be reached

A session is reached by running scripts one after the other on a new one.  Its machine is sound: whatever
its scripts left behind, the routines that can be called later are closed over frames that mirror the
scopes they were written in.
-/

namespace KScript

open Scope

/-! ## Accepted scripts -/

lemma Parsed.proper_ofSource {source : String} (h : (Parsed.ofSource source).reports = []) :
    Stmt.ProperAll (Parsed.ofSource source).program :=
  have hspells := Parsed.spells_of_reports_eq_nil h
  Stmt.properAll_of_lexed (Stmt.lexedAll_of_spells hspells (Scan.lexed_ofSource source))
    (Stmt.wellFormedAll_of_spells hspells)

namespace Session

/-- The uses of names in a script, if it is accepted. -/
def usesOf (source : String) : List Use :=
  if (prepare source).1 = [] then (Parsed.ofSource source).program.uses else []

/-- The uses of names in all scripts of a session that were accepted. -/
def uses (sources : List String) : List Use := sources.flatMap usesOf

lemma usesOf_subset_uses {source : String} {sources : List String} (h : source ∈ sources) :
    usesOf source ⊆ uses sources :=
  fun _ hu => List.mem_flatMap.mpr ⟨source, h, hu⟩

/-- Nothing is wrong with an accepted script, and what is run is its resolved program. -/
lemma prepare_accepted {source : String} (h : (prepare source).1 = []) :
    (Parsed.ofSource source).reports = [] ∧ (Parsed.ofSource source).program.check = []
      ∧ (prepare source).2 = (Parsed.ofSource source).program.resolve := by
  unfold prepare at h ⊢
  dsimp only at h ⊢
  split at h
  · next hempty => exact ⟨List.isEmpty_iff.mp hempty, h, by rw [if_pos hempty]⟩
  · next hempty => exact absurd (List.isEmpty_iff.mpr h) hempty

lemma admitted_of_accepted {source : String} {U : List Use} (h : (prepare source).1 = [])
    (hU : usesOf source ⊆ U) : Stmt.AdmittedAll U topLevel (Parsed.ofSource source).program := by
  obtain ⟨hreports, hcheck, -⟩ := prepare_accepted h
  rw [usesOf, if_pos h] at hU
  exact Stmt.admittedAll hcheck hU (Parsed.proper_ofSource hreports)

/-- What is run for an accepted script, written out or not, is an admitted program. -/
lemma echoed_resolve {U : List Use} {program : Program Unit} (echo : Bool)
    (h : Stmt.AdmittedAll U topLevel program) : ∃ shown : Program Unit,
      echoed echo program.resolve = Stmt.resolveAll topLevel shown
        ∧ Stmt.AdmittedAll U topLevel shown := by
  match program, h with
  | [], _ => exact ⟨[], rfl, trivial⟩
  | s :: t :: rest, h => exact ⟨s :: t :: rest, by cases s <;> rfl, h⟩
  | [s], h =>
      cases s with
      | expr e =>
          cases echo with
          | false => exact ⟨[.expr e], rfl, h⟩
          | true => exact ⟨[.echo e], rfl, h⟩
      | _ => exact ⟨_, rfl, h⟩

/-! ## Reached sessions -/

/-- The session is reached by running the scripts, the latest first, on a new one. -/
inductive Reached : List String → Session → Prop where
  | new (natives tracing : Bool) (input : String) (clock : Float) :
      Reached [] (Session.new natives tracing input clock)
  | run {sources : List String} {s : Session} (h : Reached sources s) (source : String)
      (echo : Bool) : Reached (source :: sources) (s.runScript source echo).2

variable {U : List Use}

lemma sound_newMachine (natives tracing : Bool) (input : String) (clock : Float) :
    (newMachine natives tracing input clock).Sound U where
  global := Nat.zero_lt_one
  frames address := by
    have htable : Table.Fits U (newMachine natives tracing input clock).frames
        (if natives then Native.table else Table.empty) := by
      split
      · refine Table.fits_ofList ?_
        intro entry hentry
        obtain ⟨n, -, rfl⟩ := List.mem_map.mp hentry
        refine ⟨.native n, ?_⟩
        constructor
        · intro heq
          cases n <;> exact absurd heq (by decide)
        · intro heq
          cases n <;> exact absurd heq (by decide)
      · exact Table.fits_empty
    cases address with
    | zero => exact htable
    | succ address => exact Table.fits_empty
  fields ident name v hfind := by cases hfind

/-- How a watch compares with the plain run where scopes and frames always agree. -/
noncomputable def agreement (U : List Use) (signal : Signal) : Comparison U where
  watch := Watch.stopAt (fun x => ¬x.Agrees U) signal
  signal := signal
  mayStop := False
  Natural s := s ≠ .crash .offChain
  failure := by simp
  exit := by simp
  exhausted := by simp
  rounding := by simp
  stops x s hagrees hstop := by simp [Watch.stopAt, hagrees] at hstop
  unbound := by simp

/-- An accepted program ends in a sound machine and on the chain of frames, and agreement of scopes and
frames can be demanded at every moment of its run. -/
lemma run_agreement {program : Program Unit} {m : Machine}
    (hadmitted : Stmt.AdmittedAll U topLevel program) (hs : m.Sound U) (fuel : Nat)
    (signal : Signal) :
    (Watch.stopAt (fun x => ¬x.Agrees U) signal).run fuel (Stmt.resolveAll topLevel program) m
        = Program.run fuel (Stmt.resolveAll topLevel program) m
      ∧ (agreement U signal).Ends m (fun _ _ => True)
          (Program.run fuel (Stmt.resolveAll topLevel program) m) := by
  have htie := Watch.run_tie (agreement U signal) fuel Context.settled_topLevel hadmitted hs
    (Frames.Mirror.global m.frames)
  rcases htie with ⟨hfalse, -⟩ | h
  · exact hfalse.elim
  · exact h

/-- **The machine of a reached session is sound.** -/
theorem Reached.sound {sources : List String} {s : Session} (h : Reached sources s)
    (hU : ∀ source ∈ sources, usesOf source ⊆ U) : s.machine.Sound U := by
  induction h with
  | new natives tracing input clock => exact sound_newMachine natives tracing input clock
  | @run sources s h source echo ih =>
      have ⟨hsource, hsources⟩ := List.forall_mem_cons.mp hU
      have hsound := ih hsources
      unfold runScript
      split
      · next program hprepare =>
          have haccepted : (prepare source).1 = [] := by rw [hprepare]
          have hadmitted := admitted_of_accepted haccepted hsource
          obtain ⟨shown, hshown, hadmitted'⟩ := echoed_resolve echo hadmitted
          have hprogram : program = (Parsed.ofSource source).program.resolve := by
            rw [← (prepare_accepted haccepted).2.2, hprepare]
          have hready : (ready s.machine).Sound U := hsound.congr rfl rfl
          obtain ⟨-, hends⟩ := run_agreement hadmitted' hready fuel .exhausted
          dsimp only [tell, runProgram]
          rw [hprogram, hshown]
          cases hrun : Program.run fuel (Stmt.resolveAll topLevel shown) (ready s.machine) with
          | ok _ next | error signal next =>
              rw [hrun] at hends
              exact hends.1
      · exact hsound

end Session

end KScript

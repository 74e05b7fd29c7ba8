import KScript.Proofs.Parser.RoundTrip
import KScript.Session

/-!
# Rejected scripts leave no trace

A script with which something is wrong does not run: the machine stays as it was.  What a session tells
about a step depends on the machine alone, so the steps that were rejected can be taken out of a session
and nothing that is told about the other steps changes.
-/

namespace KScript

namespace Session

/-- Something is wrong with the script: its scanner, its parser or its check complains. -/
def Rejects (source : String) : Prop :=
  (Scan.ofSource source).faults ≠ [] ∨ (Parsed.ofSource source).reports ≠ []
    ∨ (Parsed.ofSource source).program.check ≠ []

instance (source : String) : Decidable (Rejects source) := inferInstanceAs (Decidable (_ ∨ _ ∨ _))

/-- A step of a session: a script, and whether a lone expression is written out. -/
abbrev Step := String × Bool

/-- What is told about a step: its report, and the global variables after it. -/
structure Row where
  report : Report
  globals : List (String × Value)

/-- What is told about the steps of a session, in order. -/
def rows (s : Session) : List Step → List Row
  | [] => []
  | (source, echo) :: steps =>
    let (report, next) := s.runScript source echo
    ⟨report, next.globals⟩ :: next.rows steps

variable {s s' : Session} {source : String}

/-! ## One step -/

lemma rejects_iff : Rejects source ↔ (prepare source).1 ≠ [] := by
  obtain ⟨new, hnew⟩ := Parsed.reports_ofTokens (Scan.ofSource source).tokens
    (Scan.ofSource source).endLine (Scan.ofSource source).faults
  have hreports : (Parsed.ofSource source).reports = (Scan.ofSource source).faults ++ new := hnew
  unfold Rejects prepare
  by_cases hempty : (Parsed.ofSource source).reports = []
  · have hfaults : (Scan.ofSource source).faults = [] :=
      (List.append_eq_nil_iff.mp (hreports.symm.trans hempty)).1
    simp [hempty, hfaults]
  · simp [hempty]

/-- A rejected script is only complained about. -/
lemma runScript_of_rejects (h : Rejects source) (echo : Bool) :
    s.runScript source echo
      = (⟨.rejected (prepare source).1, "", []⟩, s.tell (.rejected (prepare source).1)) := by
  have hne := rejects_iff.mp h
  unfold runScript
  split
  · next hprepare => simp [hprepare] at hne
  · next hprepare => rw [hprepare]

lemma not_rejected_outcomeOf (calls : List CallRecord) (signal : Signal) (reports : List Diagnostic) :
    outcomeOf calls signal ≠ .rejected reports := by
  cases signal <;> simp [outcomeOf]

/-- Only a script with which something is wrong is rejected. -/
lemma rejects_of_outcome {echo : Bool} {reports : List Diagnostic}
    (h : (s.runScript source echo).1.outcome = .rejected reports) : Rejects source := by
  by_contra hnot
  rw [rejects_iff, not_not] at hnot
  have hprepare : prepare source = ([], (prepare source).2) := by rw [← hnot]
  rw [runScript, hprepare] at h
  simp only [runProgram] at h
  split at h
  · cases h
  · exact not_rejected_outcomeOf _ _ _ h

/-- What a script does depends on the machine only. -/
lemma runScript_congr (h : s.machine = s'.machine) (source : String) (echo : Bool) :
    (s.runScript source echo).1 = (s'.runScript source echo).1
      ∧ (s.runScript source echo).2.machine = (s'.runScript source echo).2.machine := by
  unfold runScript
  rw [h]
  split
  · exact ⟨rfl, rfl⟩
  · exact ⟨rfl, h⟩

/-! ## All steps -/

/-- The rows of the steps that are not rejected are the rows of a session without the others. -/
lemma rows_accepted (steps : List Step) (h : s.machine = s'.machine) :
    (((steps.zip (s.rows steps)).filter fun entry => ¬Rejects entry.1.1).map Prod.snd)
      = s'.rows (steps.filter fun step => ¬Rejects step.1) := by
  induction steps generalizing s s' with
  | nil => rfl
  | cons step steps ih =>
      obtain ⟨source, echo⟩ := step
      by_cases hrejects : Rejects source
      · have hnext : (s.runScript source echo).2.machine = s'.machine := by
          rw [runScript_of_rejects hrejects]
          exact h
        simpa [rows, hrejects] using ih hnext
      · obtain ⟨hreport, hnext⟩ := runScript_congr h source echo
        have hglobals : (s.runScript source echo).2.globals = (s'.runScript source echo).2.globals := by
          simp only [globals, hnext]
        simpa [rows, hrejects, hreport, hglobals] using ih hnext

end Session

end KScript

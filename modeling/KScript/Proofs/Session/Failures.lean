import KScript.Proofs.Blame.Raising
import KScript.Proofs.Session.Guarded
import KScript.Proofs.Session.ScopeAgreement
import KScript.Proofs.Session.Splitting

/-!
# Where failures come from in every session

Every failure of a script is raised by a phrase of a script that the session has run, and neither the calls
nor the phrases around it change that.  Its line is that of a token: an evaluator does nothing with lines but
tell them, so if those that the tokens are on are kept and all others are moved, every session goes on as it
is, and a failure on a line that moves cannot be among what it tells.
-/

namespace KScript

variable {sources : List String} {m : Machine} {line : Nat} {cause : Cause}

/-- The phrase that is begun stands in one of the scripts, if that was accepted. -/
def Begun.Stands (sources : List String) (x : Begun) : Prop :=
  ∃ around, Session.Stands sources around x.phrase

lemma Begun.lasting_stands (sources : List String) : Begun.Lasting sources (Begun.Stands sources) :=
  fun _ hm hruns => ⟨_, hruns.stands hm.orderly⟩

/-- Tokens stand for those on the lines to which `f` moves them. -/
def Likeness.moving (f : Nat → Nat) : Likeness where
  first := ""
  second := ""
  Same t t' := t' = t.relined f
  same_kind h := h ▸ rfl
  same_lexeme h := h ▸ rfl
  declarable := (shifting 0 0).declarable

/-- Lines are counted from one. -/
lemma Tiled.one_le_line {before whole : List Char} {tokens : List Token} {faults : List Diagnostic}
    (h : Tiled before whole tokens faults) : ∀ t ∈ tokens, 1 ≤ t.line := by
  induction h with
  | done => simp
  | gap _ _ _ ih => exact ih
  | fault _ _ ih => exact ih
  | token _ _ ih => exact List.forall_mem_cons.mpr ⟨Nat.le_add_right 1 _, ih⟩

lemma Scan.one_le_line {source : String} {t : Token} (ht : t ∈ (Scan.ofSource source).tokens) :
    1 ≤ t.line :=
  (((Scan.ofSource_tiled source).1 _ _).mpr ⟨rfl, rfl⟩).one_le_line t ht

/-- How a script failed, if it did. -/
def Outcome.failure? : Outcome → Option (Nat × Cause)
  | .failed line cause _ => some (line, cause)
  | _ => none

/-- Scripts that ended alike failed on lines that stand for each other. -/
lemma Outcome.Like.sameLine {L : Likeness} {o o' : Outcome} {line' : Nat} {cause' : Cause} (h : o.Like L o')
    (ho : o.failure? = some (line, cause)) (ho' : o'.failure? = some (line', cause')) :
    L.SameLine line line' := by
  cases h with
  | success => cases ho
  | cut h _ =>
      cases h with
      | failure hline cause =>
          cases ho
          cases ho'
          exact hline
      | _ => cases ho

namespace Session

/-- A program is the same on other lines, if those of the tokens of its script are kept. -/
lemma relinedAll_prepare {source : String} {f : Nat → Nat} (haccepted : (prepare source).1 = [])
    (hf : ∀ t ∈ (Scan.ofSource source).tokens, f t.line = t.line) :
    Stmt.relinedAll f (prepare source).2 = (prepare source).2 := by
  obtain ⟨hfaults, hspells, hcheck⟩ := spells_of_prepared haccepted
  have htokens : (Scan.ofSource source).tokens.map (Token.relined f) = (Scan.ofSource source).tokens := by
    refine (List.map_congr_left fun t ht => ?_).trans (List.map_id _)
    rw [Token.relined, hf t ht]
    rfl
  have hspells' := hspells.relined (f := f)
  rw [htokens] at hspells'
  have hcheck' : Program.check (Stmt.relinedAll f (Parsed.ofSource source).program) = [] := by
    rw [Program.check_relined, hcheck]
    rfl
  -- the tokens are those of the moved program as well, and they spell one program only
  have hsame := congrArg Prod.snd (prepare_of_spells hfaults hspells' hcheck')
  rw [Program.resolve_relined, ← (prepare_accepted haccepted).2.2] at hsame
  exact hsame.symm

lemma failure?_runProgram {program : Program Depth} :
    (runProgram m program).1.failure? = some (line, cause)
      ↔ ∃ m', Program.run fuel program (ready m) = .error (.failure line cause) m' := by
  unfold runProgram
  cases Program.run fuel program (ready m) with
  | ok _ next => simp [Outcome.failure?]
  | error signal next => cases signal <;> simp [outcomeOf, Outcome.failure?]

/-- A script fails if it is accepted and its program fails. -/
lemma failure?_runScript {s : Session} {source : String} {echo : Bool} :
    (s.runScript source echo).1.outcome.failure? = some (line, cause) ↔ (prepare source).1 = []
      ∧ ∃ m', Program.run fuel (echoed echo (prepare source).2) (ready s.machine)
          = .error (.failure line cause) m' := by
  by_cases haccepted : (prepare source).1 = []
  · rw [runScript_outcome haccepted, failure?_runProgram]
    simp [haccepted]
  · have hrejected : (s.runScript source echo).1.outcome.failure? = none := by
      unfold runScript
      split
      · next hprepare => exact absurd (by rw [hprepare]) haccepted
      · rfl
    simp [hrejected, haccepted]

/-- A failure is on the line of a token of a script that the session has run. -/
lemma Reached.line_of_failure {s : Session} (hs : Reached sources s) {source : String} {echo : Bool}
    (hfails : (s.runScript source echo).1.outcome.failure? = some (line, cause)) :
    ∃ script ∈ source :: sources, ∃ t ∈ (Scan.ofSource script).tokens, t.line = line := by
  by_contra hnone
  -- otherwise the line can be moved, and the session goes on as it is
  let f : Nat → Nat := fun l => if l = line then line + 1 else l
  have hkept (script : String) (hscript : script ∈ source :: sources) (t : Token)
      (ht : t ∈ (Scan.ofSource script).tokens) : f t.line = t.line :=
    if_neg fun heq => hnone ⟨script, hscript, t, ht, heq⟩
  let L : Pairing := ⟨.moving f, "", []⟩
  have hprogram (script : String) (hscript : script ∈ source :: sources)
      (haccepted : (prepare script).1 = []) :
      Stmt.LikeAll L [] (prepare script).2 (prepare script).2 := by
    have hmoves : L.Moves id f [] := ⟨fun _ => rfl, by simp⟩
    have hlike := Stmt.likeAll_relined hmoves (prepare script).2
    rwa [Stmt.relinedAll_id, relinedAll_prepare haccepted (hkept script hscript)] at hlike
  obtain ⟨haccepted, -⟩ := failure?_runScript.mp hfails
  obtain ⟨W, hself⟩ := hs.machine_like_of_programs (L := L) ⟨rfl, rfl⟩ fun script hscript =>
    hprogram script (List.mem_cons_of_mem _ hscript)
  have hlike := (runProgram_like ⟨rfl, rfl⟩ hself
    (echoed_like echo (hprogram source List.mem_cons_self haccepted))).1
  rw [← runScript_outcome haccepted] at hlike
  obtain ⟨t, _, rfl, hline, hmoved⟩ := hlike.sameLine hfails hfails
  have hmoves : f t.line = line + 1 := if_pos hline
  exact absurd (hmoves.symm.trans hmoved) (Nat.succ_ne_self line)

/-- **Every failure has a position.**  Whatever scripts a session has run, and whatever script it runs next:

* a failure of the script is on the line of a token of one of the scripts, and lines are counted from one;
* the script fails if and only if it is accepted and its run comes to a phrase that raises the failure itself,
  and the phrase stands in one of the scripts.  No matter how many calls are under way there, the failure of
  the script is the one that the phrase raises;
* in particular, if the run comes to a call of a native routine that tells a failure, this is the failure of
  the script, and its line is that of the closing parenthesis of the call. -/
theorem failure_positions {s : Session} (hs : Reached sources s) (source : String) (echo : Bool)
    (line : Nat) (cause : Cause) :
    let program := echoed echo (prepare source).2
    let scripts := source :: sources
    let fails := (s.runScript source echo).1.outcome.failure? = some (line, cause)
    (fails → 1 ≤ line ∧ ∃ script ∈ scripts, ∃ t ∈ (Scan.ofSource script).tokens, t.line = line)
      ∧ (fails ↔ (prepare source).1 = []
          ∧ Program.Begins (fun x => x.Raises line cause ∧ x.Stands scripts) fuel program (ready s.machine))
      ∧ ((prepare source).1 = [] →
          Program.Begins (Begun.CallsNative · line cause) fuel program (ready s.machine) → fails) := by
  intro program scripts fails
  refine ⟨fun hfails => ?_, ?_, fun haccepted hbegins => ?_⟩
  · obtain ⟨script, hscript, t, ht, rfl⟩ := hs.line_of_failure hfails
    exact ⟨Scan.one_le_line ht, script, hscript, t, ht, rfl⟩
  · refine failure?_runScript.trans (and_congr_right fun haccepted => ?_)
    rw [Program.fails_iff_begins]
    have hstands := hs.always (Begun.lasting_stands scripts) haccepted echo fuel
    exact ⟨fun h => h.and_always hstands, fun h => h.mono fun _ hx => hx.1⟩
  · exact failure?_runScript.mpr ⟨haccepted,
      Program.fails_iff_begins.mpr (hbegins.mono fun _ hx => hx.raises)⟩

/-- A class whose constructor hands its argument on to a native routine; the call ends on the sixth line. -/
def meterScript : String :=
  "class Meter \x7b\n  construct(v) \x7b this.take(v); \x7d\n  take(v) \x7b\n    this.root = sqrt(\n      v\n    );\n"
    ++ "  \x7d\n\x7d\nsub make(v) \x7b return Meter(v); \x7d"

/-- What is handed on is no number. -/
def makeScript : String := "var m = make(\"four\");"

theorem failure_positions_makeScript :
    let s := ((Session.new true false "" 0).runScript meterScript false).2
    let scripts := [makeScript, meterScript]
    Reached [meterScript] s
      ∧ (s.runScript makeScript false).1.outcome.failure? = some (6, .argumentNotNumber)
      ∧ (∃ script ∈ scripts, ∃ t ∈ (Scan.ofSource script).tokens, t.line = 6)
      ∧ Program.Begins (fun x => x.Raises 6 .argumentNotNumber ∧ x.Stands scripts) fuel
          (echoed false (prepare makeScript).2) (ready s.machine) := by
  intro s scripts
  have hs : Reached [meterScript] s := .run (.new true false "" 0) meterScript false
  have hfails : (s.runScript makeScript false).1.outcome.failure? = some (6, .argumentNotNumber) := by
    decide +kernel
  obtain ⟨hline, hraises, -⟩ := failure_positions hs makeScript false 6 .argumentNotNumber
  exact ⟨hs, hfails, (hline hfails).2, (hraises.mp hfails).2⟩

end Session

end KScript

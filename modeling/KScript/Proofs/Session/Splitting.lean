import KScript.Proofs.Alike.Sessions
import KScript.Proofs.Lines.Scripts
import KScript.Proofs.Reach.Evaluation

/-!
# Splitting a script changes nothing

A script can be given to a session as a whole or in two pieces.  The whole is read as the first piece and,
some lines further down, the second; and what the first piece leaves behind is all that the second one needs,
since no call is under way any more.
-/

namespace KScript

open Scan

/-! ## Lines that stand for each other -/

/-- Tokens stand for themselves, and those of one script stand for each other `n` and `k` lines down. -/
def Likeness.shifting (n k : Nat) : Likeness where
  first := ""
  second := ""
  Same t t' := t' = t ∨ ∃ u : Token, t = u.relined (· + n) ∧ t' = u.relined (· + k)
  same_kind := by rintro t t' (rfl | ⟨u, rfl, rfl⟩) <;> rfl
  same_lexeme := by rintro t t' (rfl | ⟨u, rfl, rfl⟩) <;> rfl
  declarable := by decide

namespace Likeness

variable {n k : Nat}

lemma perm_shifting (marked : Bool) (name : String) : (shifting n k).perm marked name = name := by
  cases marked <;> simp [perm, shifting]

lemma plain_shifting : Pairing.Plain ⟨shifting n k, "", []⟩ := ⟨fun _ => .inl rfl, rfl, rfl⟩

lemma moves_shifting : (shifting n k).Moves (· + n) (· + k) [] := ⟨fun t => .inr ⟨t, rfl, rfl⟩, by simp⟩

end Likeness

namespace Outcome

/-- The outcome with its line `n` lines down. -/
def later (n : Nat) : Outcome → Outcome
  | failed line cause calls => failed (line + n) cause calls
  | o => o

@[simp] lemma later_zero (o : Outcome) : o.later 0 = o := by cases o <;> rfl

lemma outline_later (n : Nat) (o : Outcome) : (o.later n).outline = o.outline.later n := by cases o <;> rfl

lemma later_injective (n : Nat) : Function.Injective (later n) := by
  intro o o' h
  cases o <;> cases o' <;> simp_all [later]

/-- The line is the same, or that of one token `n` and `k` lines down. -/
lemma Like.same_or_later {n k : Nat} {o o' : Outcome} (h : o.Like (Likeness.shifting n k) o') :
    o'.outline = o.outline ∨ ∃ u : Outcome, o.outline = u.later n ∧ o'.outline = u.later k := by
  cases h with
  | success => exact .inl rfl
  | @cut _ _ calls calls' hsignal hcalls =>
      cases hsignal with
      | failure hline cause =>
          obtain ⟨t, t', rfl | ⟨u, rfl, rfl⟩, rfl, rfl⟩ := hline
          · exact .inl (by simp only [Session.outcomeOf, outline, hcalls])
          · refine .inr ⟨failed u.line cause (calls.map CallRecord.outline), rfl, ?_⟩
            simp only [Session.outcomeOf, outline, later, hcalls]
            rfl
      | exit code => exact .inl rfl
      | crash crash => exact .inl rfl
      | unbound marked name => exact .inl (by rw [Likeness.perm_shifting]; rfl)
      | exhausted => exact .inl rfl

/-- If outcomes are compared line by line, then either all of them are the same or every one has its line as
many lines down as the script is. -/
lemma exists_moved (outcome : Nat → Outcome)
    (h : ∀ n k, outcome k = outcome n ∨ ∃ u : Outcome, outcome n = u.later n ∧ outcome k = u.later k) :
    ∃ moved : Bool, ∀ n, outcome n = (outcome 0).later (if moved then n else 0) := by
  by_cases hall : ∀ n, outcome n = outcome 0
  · exact ⟨false, fun n => by simpa using hall n⟩
  · obtain ⟨k, hk⟩ := not_forall.mp hall
    refine ⟨true, fun n => ?_⟩
    rcases h 0 n with hsame | ⟨u, hzero, hn⟩
    · -- The outcome with `k` blank lines is another one, so it is the one to compare with.
      rcases h 0 k with hk' | ⟨u, hzero, hu⟩
      · exact absurd hk' hk
      rcases h k n with hn | ⟨v, hv, hn⟩
      · exact absurd (hn.symm.trans hsame) hk
      · obtain rfl := later_injective k (hu.symm.trans hv)
        rw [later_zero] at hzero
        rw [hzero, hn, if_pos rfl]
    · rw [later_zero] at hzero
      rw [hzero, hn, if_pos rfl]

end Outcome

/-! ## One program after the other -/

lemma Program.run_append (fuel : Nat) (p q : Program Depth) :
    Program.run fuel (p ++ q) = Program.run fuel p >>= fun _ => Program.run fuel q := by
  induction p with
  | nil => rfl
  | cons s rest ih => simp [Program.run, ih]

/-- Calls that began have ended: as many are under way as before. -/
def Policy.returning : Policy :=
  { Policy.free fun _ => False with
    Step := fun m n => n.calls = m.calls
    refl := fun _ => rfl
    trans := fun h h' => h'.trans h
    cut_trans := fun _ _ => trivial
    put := fun {_ cell _} _ _ _ _ => ⟨trivial, by cases cell <;> rfl⟩
    newFrame := fun _ _ => ⟨trivial, trivial, rfl⟩
    newObject := fun _ => ⟨trivial, trivial, rfl⟩
    quiet := fun _ _ _ hcalls => ⟨trivial, hcalls⟩
    unlisted := fun _ hstep => ⟨trivial, congrArg List.tail hstep⟩ }

lemma Program.calls_of_run {fuel : Nat} {program : Program Depth} {m next : Machine}
    (h : Program.run fuel program m = .ok () next) : next.calls = m.calls := by
  have hbrings : Stmt.BringsAll Policy.returning.Kind program := fun _ _ => trivial
  have hends := (Program.run_obeys (fun _ _ _ _ => trivial) fuel hbrings).elim (m := m) (fun _ => id) trivial
  rw [h] at hends
  exact hends.2.2.1

namespace Session

variable {sources : List String} {s : Session} {m : Machine}

lemma echoed_false (program : Program Depth) : echoed false program = program := by
  unfold echoed
  split <;> rfl

/-- A run that ended well ended well as a part of a longer one, which goes on from there. -/
lemma runProgram_append (p q : Program Depth) (h : (runProgram m p).1 = .success) :
    (runProgram m p).2.calls = []
      ∧ runProgram m (p ++ q) = ended (Program.run fuel q (runProgram m p).2) := by
  rw [runProgram_eq] at h ⊢
  rw [runProgram_eq, Program.run_append]
  cases hrun : Program.run fuel p (ready m) with
  | ok _ next =>
      refine ⟨Program.calls_of_run hrun, ?_⟩
      simp only [Bind.bind, EStateM.bind, hrun, ended]
  | error signal next =>
      rw [hrun] at h
      cases signal <;> cases h

/-- A run that is cut short is cut short as a part of a longer one. -/
lemma runProgram_append_of_cut (p q : Program Depth) (h : (runProgram m p).1 ≠ .success) :
    runProgram m (p ++ q) = runProgram m p := by
  rw [runProgram_eq] at h
  rw [runProgram_eq, runProgram_eq, Program.run_append]
  cases hrun : Program.run fuel p (ready m) with
  | ok _ next =>
      rw [hrun] at h
      exact absurd rfl h
  | error signal next => simp only [Bind.bind, EStateM.bind, hrun]

/-- A machine on which no call is under way is like the same machine made ready. -/
lemma ready_like_self {K : Likeness} {W : List Bool} (h : m.Like ⟨K, "", []⟩ W m) (hcalls : m.calls = []) :
    (ready m).Like ⟨K, m.console.output, m.notes⟩ W m :=
  { h with
    calls := by rw [hcalls]; rfl
    console := by simp [ready]
    notes := by simp [ready] }

/-! ## One script after the other -/

/-- A script that is run without echo is its program. -/
lemma runScript_silent {source : String} {program : Program Depth} (h : prepare source = ([], program))
    (s : Session) :
    (s.runScript source false).1.outcome = (runProgram s.machine program).1
      ∧ (s.runScript source false).2.machine = (runProgram s.machine program).2 := by
  rw [runScript_of_prepare h, echoed_false]
  exact ⟨rfl, rfl⟩

/-- What a script that is accepted wrote is found on its machine. -/
lemma told_of_accepted {source : String} (h : (prepare source).1 = []) (s : Session) (echo : Bool) :
    (s.runScript source echo).1.output = (s.runScript source echo).2.machine.console.output
      ∧ (s.runScript source echo).1.notes = (s.runScript source echo).2.machine.notes.reverse := by
  rw [runScript_of_prepare (Prod.ext h rfl)]
  exact ⟨rfl, rfl⟩

/-- A program that goes on after another one, on other lines than if it was begun anew. -/
lemma goesOn_like (hs : Reached sources s) (hcalls : s.machine.calls = []) (program : Program Depth)
    (n k : Nat) :
    let anew := runProgram s.machine (Stmt.relinedAll (· + n) program)
    let goesOn := ended (Program.run fuel (Stmt.relinedAll (· + k) program) s.machine)
    anew.1.Like (Likeness.shifting n k) goesOn.1
      ∧ ∃ W, anew.2.Like ⟨Likeness.shifting n k, s.machine.console.output, s.machine.notes⟩ W
          goesOn.2 := by
  obtain ⟨W, hself⟩ := hs.machine_like (Likeness.plain_shifting (n := n) (k := k))
  have hprogram := Stmt.likeAll_relined (Likeness.moves_shifting (n := n) (k := k)) program
  rw [runProgram_eq]
  exact ended_like (Program.run_alike fuel (ready_like_self hself hcalls) hprogram)

/-- A program begun anew on other lines. -/
lemma anew_like (hs : Reached sources s) (program : Program Depth) (n k : Nat) :
    (runProgram s.machine (Stmt.relinedAll (· + n) program)).1.Like (Likeness.shifting n k)
      (runProgram s.machine (Stmt.relinedAll (· + k) program)).1 := by
  obtain ⟨W, hself⟩ := hs.machine_like (Likeness.plain_shifting (n := n) (k := k))
  have hprogram := Stmt.likeAll_relined (Likeness.moves_shifting (n := n) (k := k)) program
  exact (runProgram_like Likeness.plain_shifting.unwritten hself hprogram).1

/-- The line that is told about a program is the same wherever the program stands, or it moves with it, be the
program begun anew or not. -/
lemma exists_moved_of_reached (hs : Reached sources s) (hcalls : s.machine.calls = [])
    (program : Program Depth) (k : Nat) :
    let anew n := (runProgram s.machine (Stmt.relinedAll (· + n) program)).1
    let goesOn := (ended (Program.run fuel (Stmt.relinedAll (· + k) program) s.machine)).1
    ∃ moved : Bool, goesOn.outline = ((anew 0).later (if moved then k else 0)).outline
      ∧ ∀ n, (anew n).outline = ((anew 0).later (if moved then n else 0)).outline := by
  intro anew goesOn
  obtain ⟨moved, hmoved⟩ := Outcome.exists_moved (fun n => (anew n).outline)
    fun n k => (anew_like hs program n k).same_or_later
  simp only [← Outcome.outline_later] at hmoved
  have hsame : goesOn.outline = (anew k).outline := by
    rcases (goesOn_like hs hcalls program k k).1.same_or_later with h | ⟨u, hu, hu'⟩
    · exact h
    · exact hu'.trans hu.symm
  exact ⟨moved, hsame.trans (hmoved k), hmoved⟩

/-- If the first of two scripts succeeds, then running both as one goes on from where the first one ended, with
the second one on later lines. -/
lemma runScript_append {first second : String} (hfirst : (prepare first).1 = [])
    (hsecond : (prepare second).1 = []) (hsuccess : (s.runScript first false).1.outcome = .success) :
    let machine := (s.runScript first false).2.machine
    let goesOn := ended (Program.run fuel
      (Stmt.relinedAll (· + lineAfter first.toList) (prepare second).2) machine)
    machine.calls = []
      ∧ (s.runScript (first ++ "\n" ++ second) false).1.outcome = goesOn.1
      ∧ (s.runScript (first ++ "\n" ++ second) false).2.machine = goesOn.2 := by
  obtain ⟨houtcome, hmachine⟩ := runScript_silent (Prod.ext hfirst rfl) s
  rw [houtcome] at hsuccess
  obtain ⟨hcalls, hgoesOn⟩ := runProgram_append (prepare first).2
    (Stmt.relinedAll (· + lineAfter first.toList) (prepare second).2) hsuccess
  obtain ⟨hwhole, hwhole'⟩ := runScript_silent (prepare_append hfirst hsecond) s
  rw [hwhole, hwhole', hgoesOn, hmachine]
  exact ⟨hcalls, rfl, rfl⟩

/-- If the first of two scripts does not succeed, then running both as one ends with it. -/
lemma runScript_append_of_cut {first second : String} (hfirst : (prepare first).1 = [])
    (hsecond : (prepare second).1 = []) (hcut : (s.runScript first false).1.outcome ≠ .success) :
    s.runScript (first ++ "\n" ++ second) false = s.runScript first false := by
  have hprepare : prepare first = ([], (prepare first).2) := Prod.ext hfirst rfl
  rw [(runScript_silent hprepare s).1] at hcut
  rw [runScript_of_prepare (prepare_append hfirst hsecond), runScript_of_prepare hprepare, echoed_false,
    echoed_false, runProgram_append_of_cut _ _ hcut]

/-- **Splitting a script changes nothing.**  Two scripts that are accepted are accepted as one, the second
one behind the first: a script that begins with `else` is not accepted in the first place.  In every session
that can be reached, if the first script succeeds, then running it and after it the second one is like running
the whole:

* what they write is what the whole writes, and so are the debug lines; they read the same input;
* they leave the same globals, but for the code of routines; and all of the machine, code included, is the
  same but for the lines of tokens of the second script;
* the second script ends as the whole does, with the same message and trace.  The line that is told is the
  same for both, or it moves down with the second script: by as many lines as stand in front of it in the
  whole, and by `n` if there are `n` blank lines in front of it.

If the first script does not succeed, then the whole gives the same report and leaves the same session. -/
theorem splitting_unseen (hs : Reached sources s) {first second : String}
    (hfirst : (prepare first).1 = []) (hsecond : (prepare second).1 = []) :
    let whole := s.runScript (first ++ "\n" ++ second) false
    let before := s.runScript first false
    let after := before.2.runScript second false
    let lines := lineAfter first.toList
    (prepare (first ++ "\n" ++ second)).1 = []
      ∧ (before.1.outcome = .success →
          whole.1.output = before.1.output ++ after.1.output
          ∧ whole.1.notes = before.1.notes ++ after.1.notes
          ∧ whole.2.machine.console.input = after.2.machine.console.input
          ∧ whole.2.globalOutlines = after.2.globalOutlines
          ∧ (∃ W, after.2.machine.Like
              ⟨Likeness.shifting 0 lines, before.1.output, before.1.notes.reverse⟩ W whole.2.machine)
          ∧ ∃ moved : Bool,
              whole.1.outcome.outline = (after.1.outcome.later (if moved then lines else 0)).outline
              ∧ whole.1.outcome.text = (after.1.outcome.later (if moved then lines else 0)).text
              ∧ ∀ n, (before.2.runScript (pushedDown n second) false).1.outcome.outline
                  = (after.1.outcome.later (if moved then n else 0)).outline)
      ∧ (before.1.outcome ≠ .success → whole = before) := by
  intro whole before after lines
  have haccepted : (prepare (first ++ "\n" ++ second)).1 = [] :=
    congrArg Prod.fst (prepare_append hfirst hsecond)
  refine ⟨haccepted, fun hsuccess => ?_, runScript_append_of_cut hfirst hsecond⟩
  have hreached : Reached (first :: sources) before.2 := hs.run first false
  obtain ⟨hcalls, houtcome, hmachine⟩ := runScript_append hfirst hsecond hsuccess
  have hafter := fun n => runScript_silent (prepare_pushedDown n hsecond) before.2
  obtain ⟨-, W, hlike⟩ := goesOn_like hreached hcalls (prepare second).2 0 lines
  obtain ⟨moved, hwhole, hmoved⟩ := exists_moved_of_reached hreached hcalls (prepare second).2 lines
  rw [← hmachine, ← (hafter 0).2] at hlike
  rw [← houtcome] at hwhole
  simp only [← (hafter _).1] at hwhole hmoved
  obtain ⟨houtput, hnotes⟩ := told_of_accepted hfirst s false
  obtain ⟨houtputWhole, hnotesWhole⟩ := told_of_accepted haccepted s false
  obtain ⟨houtputAfter, hnotesAfter⟩ := told_of_accepted hsecond before.2 false
  refine ⟨?_, ?_, ?_, globalOutlines_of_machine hlike, ⟨W, ?_⟩, moved, hwhole,
    Outcome.Alike.text (.inl hwhole), hmoved⟩
  · rw [houtput, houtputAfter, houtputWhole, hlike.console]
    rfl
  · rw [hnotes, hnotesAfter, hnotesWhole, hlike.notes, List.reverse_append]
    rfl
  · rw [hlike.console]
    rfl
  · rw [houtput, hnotes, List.reverse_reverse]
    exact hlike

/-- Whether a script succeeded. -/
def succeeded : Outcome → Bool
  | .success => true
  | _ => false

lemma eq_success_of_succeeded {o : Outcome} (h : succeeded o = true) : o = .success := by
  cases o with
  | success => rfl
  | _ => cases h

/-- A routine that gives back its argument. -/
def keepScript : String := "sub keep(x) \x7b\n  return x;\n\x7d"

/-- A call of that routine with a variable that nobody declared. -/
def missingScript : String := "var y = keep(true);\nkeep(missing);"

/-- The variable is missing on the second line of its script, which is the fifth of the whole. -/
theorem splitting_unseen_missing :
    let s := Session.new true false "" 0
    Reached [] s ∧ (prepare keepScript).1 = [] ∧ (prepare missingScript).1 = []
      ∧ (s.runScript keepScript false).1.outcome = .success
      ∧ ((s.runScript keepScript false).2.runScript missingScript false).1.outcome.line? = some 2
      ∧ (s.runScript (keepScript ++ "\n" ++ missingScript) false).1.outcome.line? = some 5
      ∧ (∃ moved : Bool,
          (s.runScript (keepScript ++ "\n" ++ missingScript) false).1.outcome.outline
            = (((s.runScript keepScript false).2.runScript missingScript false).1.outcome.later
                (if moved then 3 else 0)).outline)
      ∧ (s.runScript (keepScript ++ "\n" ++ missingScript) false).2.globalOutlines
          = ((s.runScript keepScript false).2.runScript missingScript false).2.globalOutlines := by
  have hfirst : (prepare keepScript).1 = [] := by decide +kernel
  have hsecond : (prepare missingScript).1 = [] := by decide +kernel
  have hthree : lineAfter keepScript.toList = 3 := by decide +kernel
  intro s
  have hs : Reached [] s := .new true false "" 0
  have hsuccess : (s.runScript keepScript false).1.outcome = .success :=
    eq_success_of_succeeded (by decide +kernel)
  have hsplit := (splitting_unseen hs hfirst hsecond).2.1 hsuccess
  rw [hthree] at hsplit
  obtain ⟨-, -, -, hglobals, -, moved, hmoved, -⟩ := hsplit
  exact ⟨hs, hfirst, hsecond, hsuccess, by decide +kernel, by decide +kernel, ⟨moved, hmoved⟩, hglobals⟩

end Session

end KScript

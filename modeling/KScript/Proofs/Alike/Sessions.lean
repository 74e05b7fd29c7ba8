import KScript.Proofs.Alike.Evaluation
import KScript.Proofs.Session.Reached

/-!
# Sessions that are alike

Scripts that are alike end alike, tell the same and leave sessions that are alike.  Every session that can
be reached is like itself, so a script can be compared with another one in any of them; and from sessions
that are alike on, the same scripts give the same reports.
-/

namespace KScript

variable {L : Pairing} {W : List Bool} {m m' : Machine}

/-! ## How scripts end -/

namespace Outcome

/-- The outcome without the code of routines among the arguments of its calls. -/
def outline : Outcome → Outcome
  | failed line cause calls => failed line cause (calls.map CallRecord.outline)
  | o => o

/-- The scripts ended in the same way, at tokens that stand for each other. -/
inductive Like (L : Likeness) : Outcome → Outcome → Prop where
  | success : Like L .success .success
  | cut {signal signal' : Signal} {calls calls' : List CallRecord} (h : signal.Like L signal')
      (hcalls : calls'.map CallRecord.outline = calls.map CallRecord.outline) :
      Like L (Session.outcomeOf calls signal) (Session.outcomeOf calls' signal')

/-- The outcomes are the same, or both scripts broke down over a name that a frame does not bind. -/
def Alike (o o' : Outcome) : Prop :=
  o'.outline = o.outline ∨ ∃ name name', o = .crashed (.unbound name) ∧ o' = .crashed (.unbound name')

lemma callText_outline (call : CallRecord) : callText call.outline = callText call := by
  simp only [callText, CallRecord.outline, Value.displayAll_outlineAll]

/-- A trace shows no more of its calls than their texts. -/
lemma traceText_map {f : CallRecord → CallRecord} (hf : ∀ call, callText (f call) = callText call)
    (calls : List CallRecord) : traceText (calls.map f) = traceText calls := by
  have hshown : ((calls.map f).take traceLimit).reverse.map callText
      = (calls.take traceLimit).reverse.map callText := by
    rw [← List.map_take, ← List.map_reverse, List.map_map]
    congr 1
    funext call
    exact hf call
  simp only [traceText, hshown, List.isEmpty_map, List.length_map]

lemma text_outline (o : Outcome) : o.outline.text = o.text := by
  cases o with
  | failed line cause calls =>
      simp only [outline, text, reports, trace?, traceText_map callText_outline]
  | _ => rfl

lemma reports_outline (o : Outcome) : o.outline.reports = o.reports := by
  cases o <;> rfl

/-- What is told is the same: the message and its line, and the calls that were under way. -/
lemma Alike.text {o o' : Outcome} (h : o.Alike o') : o'.text = o.text := by
  rcases h with h | ⟨name, name', rfl, rfl⟩
  · rw [← text_outline, h, text_outline]
  · rfl

lemma Alike.reports {o o' : Outcome} (h : o.Alike o') : o'.reports = o.reports := by
  rcases h with h | ⟨name, name', rfl, rfl⟩
  · rw [← reports_outline, h, reports_outline]
  · rfl

/-- Where tokens stand only for themselves, the lines are the same. -/
lemma Like.alike {L : Likeness} (hL : ∀ t t' : Token, L.Same t t' → t' = t) {o o' : Outcome}
    (h : o.Like L o') : o.Alike o' := by
  cases h with
  | success => exact Or.inl rfl
  | cut hsignal hcalls =>
      cases hsignal with
      | failure hline cause =>
          obtain ⟨t, t', hsame, rfl, rfl⟩ := hline
          obtain rfl := hL t t' hsame
          exact Or.inl (by simp only [Session.outcomeOf, outline, hcalls])
      | exit code => exact Or.inl rfl
      | crash crash => exact Or.inl rfl
      | unbound marked name => exact Or.inr ⟨name, _, rfl, rfl⟩
      | exhausted => exact Or.inl rfl

end Outcome

/-- The reports tell the same. -/
structure Report.Alike (r r' : Report) : Prop where
  outcome : r.outcome.Alike r'.outcome
  output : r'.output = r.output
  notes : r'.notes = r.notes

/-! ## Running scripts -/

/-- Nothing was written before. -/
structure Pairing.Unwritten (L : Pairing) : Prop where
  written : L.written = ""
  noted : L.noted = []

/-- Tokens stand for themselves, and nothing was written before. -/
structure Pairing.Plain (L : Pairing) : Prop where
  same : ∀ t : Token, L.Same t t
  written : L.written = ""
  noted : L.noted = []

/-- Tokens stand only for themselves, and nothing was written before: what is left are the two names. -/
structure Pairing.Exact (L : Pairing) : Prop where
  same : ∀ t t' : Token, L.Same t t' ↔ t' = t
  written : L.written = ""
  noted : L.noted = []

lemma Pairing.Plain.unwritten (hL : L.Plain) : L.Unwritten := ⟨hL.written, hL.noted⟩

lemma Pairing.Exact.plain (hL : L.Exact) : L.Plain :=
  ⟨fun t => (hL.same t t).mpr rfl, hL.written, hL.noted⟩

namespace Session

/-- The sessions are alike. -/
structure Like (L : Pairing) (W : List Bool) (s s' : Session) : Prop where
  machine : s.machine.Like L W s'.machine
  reported : s'.reported = s.reported

lemma eq_expr_of_like {s : Stmt Depth} {e' : Expr Depth} {marks : List Bool}
    (h : s.Like L marks (.expr e')) : ∃ e, s = .expr e := by
  cases s with
  | expr e => exact ⟨e, rfl⟩
  | routine decl =>
      obtain ⟨_, _, _, _, heq, -⟩ := h
      cases heq
  | _ => simp [Stmt.Like] at h

/-- Lone expressions that are alike are written out or not. -/
lemma echoed_like (echo : Bool) {program program' : Program Depth}
    (h : Stmt.LikeAll L [] program program') :
    Stmt.LikeAll L [] (echoed echo program) (echoed echo program') := by
  unfold echoed
  split
  · next e =>
      obtain ⟨_, _, rfl, ⟨e', rfl, he⟩, hrest⟩ := h
      obtain rfl := hrest
      dsimp only
      split
      · exact ⟨_, _, rfl, ⟨e', rfl, he⟩, rfl⟩
      · exact ⟨_, _, rfl, ⟨e', rfl, he⟩, rfl⟩
  · next hother =>
      split
      · next e' =>
          match program, h with
          | s :: rest, ⟨_, _, heq, hs, hrest⟩ =>
              cases heq
              obtain ⟨e, rfl⟩ := eq_expr_of_like hs
              cases rest with
              | nil => exact absurd rfl (hother e)
              | cons t rest =>
                  obtain ⟨_, _, heq, -⟩ := hrest
                  cases heq
      · exact h

/-- The outcome of a run, and the machine afterwards. -/
def ended : EStateM.Result Signal Machine Unit → Outcome × Machine
  | .ok _ next => (.success, next)
  | .error signal next => (outcomeOf next.calls signal, next)

lemma runProgram_eq (m : Machine) (program : Program Depth) :
    runProgram m program = ended (Program.run fuel program (ready m)) := rfl

lemma ended_like {Q : List Bool → Unit → Unit → Prop} {r r' : EStateM.Result Signal Machine Unit}
    (h : L.Ends W m Q r r') :
    (ended r).1.Like L (ended r').1 ∧ ∃ W', (ended r).2.Like L W' (ended r').2 := by
  match r, r', h with
  | .ok _ next, .ok _ next', ⟨W', _, hnext, _, _⟩ => exact ⟨.success, W', hnext⟩
  | .error signal next, .error signal' next', ⟨W', _, hnext, hsignal⟩ =>
      exact ⟨.cut hsignal hnext.calls, W', hnext⟩

lemma ready_like (hL : L.Unwritten) (h : m.Like L W m') : (ready m).Like L W (ready m') :=
  { h with
    calls := rfl
    console := by simp [ready, h.console, hL.written]
    notes := by simp [ready, hL.noted] }

/-- Programs that are alike end alike. -/
lemma runProgram_like (hL : L.Unwritten) (h : m.Like L W m') {program program' : Program Depth}
    (hprogram : Stmt.LikeAll L [] program program') :
    (runProgram m program).1.Like L (runProgram m' program').1
      ∧ ∃ W', (runProgram m program).2.Like L W' (runProgram m' program').2 := by
  rw [runProgram_eq, runProgram_eq]
  exact ended_like (Program.run_alike fuel (ready_like hL h) hprogram)

variable {s s' : Session}

lemma runScript_of_prepare {source : String} {program : Program Depth}
    (h : prepare source = ([], program)) (s : Session) (echo : Bool) :
    let run := runProgram s.machine (echoed echo program)
    s.runScript source echo = (⟨run.1, run.2.console.output, run.2.notes.reverse⟩,
      { s with machine := run.2 }.tell run.1) := by
  unfold runScript
  rw [h]

/-- Accepted scripts that are alike give the same reports and leave sessions that are alike. -/
lemma runScript_alike (hL : L.Exact) (h : s.Like L W s') {source source' : String}
    {program program' : Program Depth} (hsource : prepare source = ([], program))
    (hsource' : prepare source' = ([], program')) (hprogram : Stmt.LikeAll L [] program program')
    (echo : Bool) :
    (s.runScript source echo).1.Alike (s'.runScript source' echo).1
      ∧ ∃ W', (s.runScript source echo).2.Like L W' (s'.runScript source' echo).2 := by
  obtain ⟨hended, W', hmachine⟩ := runProgram_like hL.plain.unwritten h.machine (echoed_like echo hprogram)
  have houtcome := hended.alike fun t t' => (hL.same t t').mp
  rw [runScript_of_prepare hsource, runScript_of_prepare hsource']
  refine ⟨⟨houtcome, ?_, ?_⟩, W', hmachine, ?_⟩
  · simp [hmachine.console, hL.written]
  · simp [hmachine.notes, hL.noted]
  · show s'.reported ++ _ = s.reported ++ _
    rw [h.reported, houtcome.reports]

/-- One script in sessions that are alike. -/
lemma runScript_same (hL : L.Exact) (h : s.Like L W s') (source : String) (echo : Bool) :
    (s.runScript source echo).1.Alike (s'.runScript source echo).1
      ∧ ∃ W', (s.runScript source echo).2.Like L W' (s'.runScript source echo).2 := by
  by_cases haccepted : (prepare source).1 = []
  · have hsource : prepare source = ([], (prepare source).2) := by rw [← haccepted]
    have hprogram : Stmt.LikeAll L [] (prepare source).2 (prepare source).2 :=
      Stmt.likeAll_refl hL.plain.same (by simp) _
    exact runScript_alike hL h hsource hsource hprogram echo
  · have hrejected : ∀ s : Session, s.runScript source echo
        = (⟨.rejected (prepare source).1, "", []⟩, s.tell (.rejected (prepare source).1)) := by
      intro s
      unfold runScript
      split
      · next hprepare => exact absurd (by rw [hprepare]) haccepted
      · next hprepare => rw [hprepare]
    rw [hrejected s, hrejected s']
    refine ⟨⟨Or.inl rfl, rfl, rfl⟩, W, h.machine, ?_⟩
    show s'.reported ++ _ = s.reported ++ _
    rw [h.reported]

/-! ## Sessions and themselves -/

lemma like_newMachine (natives tracing : Bool) (input : String) (clock : Float) (hL : L.Unwritten) :
    (newMachine natives tracing input clock).Like L [false]
      (newMachine natives tracing input clock) where
  size := rfl
  size' := rfl
  global := rfl
  frames address b hmark := by
    have htable : Table.Like L false (Value.Like L [false])
        (if natives then Native.table else Table.empty)
        (if natives then Native.table else Table.empty) := by
      split
      · refine Table.Like.ofList (List.forall₂_same.mpr ?_)
        intro entry hentry
        obtain ⟨n, -, rfl⟩ := List.mem_map.mp hentry
        exact ⟨rfl, rfl⟩
      · exact Table.Like.empty
    cases address with
    | zero =>
        cases hmark
        exact htable
    | succ address => cases hmark
  fieldsSize := rfl
  fields ident := Table.Like.empty
  fresh := rfl
  calls := rfl
  console := by simp [newMachine, hL.written]
  tracing := rfl
  notes := by simp [newMachine, hL.noted]

/-- **The machine of every session that can be reached is like itself**, if its programs are. -/
theorem Reached.machine_like_of_programs {sources : List String} (h : Reached sources s) (hL : L.Unwritten)
    (hprograms : ∀ source ∈ sources, (prepare source).1 = [] →
      Stmt.LikeAll L [] (prepare source).2 (prepare source).2) : ∃ W, s.machine.Like L W s.machine := by
  induction h with
  | new natives tracing input clock => exact ⟨_, like_newMachine natives tracing input clock hL⟩
  | run h source echo ih =>
      have ⟨hsource, hsources⟩ := List.forall_mem_cons.mp hprograms
      obtain ⟨W, hs⟩ := ih hsources
      unfold runScript
      split
      · next program hprepare =>
          rw [hprepare] at hsource
          exact (runProgram_like hL hs (echoed_like echo (hsource rfl))).2
      · exact ⟨W, hs⟩

lemma Reached.machine_like {sources : List String} (h : Reached sources s) (hL : L.Plain) :
    ∃ W, s.machine.Like L W s.machine :=
  h.machine_like_of_programs hL.unwritten fun _ _ _ => Stmt.likeAll_refl hL.same (by simp) _

lemma Reached.like_self {sources : List String} (h : Reached sources s) (hL : L.Exact) :
    ∃ W, s.Like L W s := by
  obtain ⟨W, hW⟩ := h.machine_like hL.plain
  exact ⟨W, hW, rfl⟩

/-! ## Later scripts and globals -/

/-- The reports of scripts that are run one after the other, each with whether a lone expression is written
out. -/
def reportsOf (s : Session) : List (String × Bool) → List Report
  | [] => []
  | (source, echo) :: rest =>
    (s.runScript source echo).1 :: reportsOf (s.runScript source echo).2 rest

/-- From sessions that are alike on, all scripts tell the same. -/
lemma reportsOf_alike (hL : L.Exact) : ∀ {scripts : List (String × Bool)} {W : List Bool}
    {s s' : Session}, s.Like L W s' →
    List.Forall₂ Report.Alike (s.reportsOf scripts) (s'.reportsOf scripts) := by
  intro scripts
  induction scripts with
  | nil => exact fun _ => .nil
  | cons script rest ih =>
      intro W s s' h
      obtain ⟨hreport, W', hnext⟩ := runScript_same hL h script.1 script.2
      exact .cons hreport (ih hnext)

/-- The global variables by name, without the code of routines. -/
def globalOutlines (s : Session) : List (String × Value) :=
  s.globals.map fun g => (g.1, g.2.outline)

/-- The order and the choice of the globals are seen on what natives and names keep. -/
lemma map_globals {f : Value → Value} (hf : ∀ g : String × Value, isBuiltIn (g.1, f g.2) = isBuiltIn g)
    (s : Session) : s.globals.map (fun g => (g.1, f g.2))
      = (((s.machine.frames.frame Machine.globalAddress).map f).entries.filter
        (!isBuiltIn ·)).mergeSort fun a b => a.1 ≤ b.1 := by
  unfold globals Table.map
  dsimp only
  rw [List.map_mergeSort (s := fun a b : String × Value => a.1 ≤ b.1) fun _ _ _ _ => rfl,
    List.filter_map]
  simp only [Function.comp_def, hf]

lemma globalOutlines_of_machine (h : s.machine.Like L W s'.machine) :
    s'.globalOutlines = s.globalOutlines := by
  have hbuiltIn : ∀ g : String × Value, isBuiltIn (g.1, g.2.outline) = isBuiltIn g := by
    rintro ⟨name, v⟩
    cases v <;> rfl
  have hglobals := (h.frames _ _ h.global).map fun _ _ hv => hv.outline
  unfold globalOutlines
  rw [map_globals hbuiltIn, map_globals hbuiltIn, hglobals]

lemma globalOutlines_eq (h : s.Like L W s') : s'.globalOutlines = s.globalOutlines :=
  globalOutlines_of_machine h.machine

end Session

end KScript

import KScript.Proofs.Blame.Guards
import KScript.Proofs.Reach.Evaluation

/-!
# The phrase that raises a failure

A phrase raises a failure itself if it fails so even though the failures of its parts, and of the bodies it
runs, are masked.  A run fails if and only if it comes to a phrase that raises the failure itself
(`Program.fails_iff_begins`): no failure comes from anywhere else, and no phrase around it changes its line
or its cause.  What a native routine tells is raised by the call of it, on the line of its closing parenthesis
(`Begun.CallsNative.raises`).
-/

namespace KScript

open Guard (stopAt)

variable {α : Type} {env : Env} {p : Phrase Depth} {m : Machine} {fuel : Nat} {program : Program Depth}
  {line : Nat} {cause : Cause}

/-- The run, with another signal in place of a failure. -/
def Run.masked (x : Run α) : Run α := fun m =>
  match x m with
  | .ok a next => .ok a next
  | .error (.failure _ _) next => .error .exhausted next
  | .error signal next => .error signal next

/-- The evaluator, with another signal in place of every failure. -/
def Interp.masked (i : Interp) : Interp where
  fuel := i.fuel
  eval env e := (i.eval env e).masked
  exec env s := (i.exec env s).masked

/-- The phrase raises the failure itself: it fails so although the failures of its parts are masked. -/
def Begun.Raises (x : Begun) (line : Nat) (cause : Cause) : Prop :=
  (interpAt x.level).masked.step.Stops x.env x.phrase x.machine (.failure line cause)

namespace Run

lemma masked_eq_ok {x : Run α} {a : α} {next : Machine} :
    x.masked m = .ok a next ↔ x m = .ok a next := by
  unfold masked
  split
  · next h => rw [h]
  · next h => simp [h]
  · next h => simp [h]

lemma masked_shorter (x : Run α) : Shorter (· = .exhausted) x.masked x := by
  intro m
  unfold masked
  split
  · next h => exact .inl h.symm
  · next next _ => exact .inr ⟨_, next, rfl, rfl⟩
  · next h => exact .inl h.symm

lemma shorter_masked_self (x : Run α) :
    Shorter (fun signal => ∃ line cause, signal = .failure line cause) x x.masked := by
  intro m
  unfold masked
  split
  · next h => exact .inl h
  · next line cause next h => exact .inr ⟨_, next, ⟨line, cause, rfl⟩, h⟩
  · next h => exact .inl h

/-- A run that never fails so does not tell whether another one is masked. -/
lemma shorter_masked {S : Signal → Prop} {x y : Run α} (hshorter : Shorter S x y)
    (hx : ∀ m signal m', x m = .error signal m' → S signal) : Shorter S x y.masked := by
  intro m
  rcases hshorter m with heq | hcut
  · cases hy : x m with
    | ok a next => exact .inl (masked_eq_ok.mpr (heq ▸ hy)).symm
    | error signal next => exact .inr ⟨signal, next, hx m signal next hy, rfl⟩
  · exact .inr hcut

end Run

lemma Interp.masked_shorter (i : Interp) : Interp.Shorter (· = .exhausted) i.masked i :=
  ⟨rfl, fun _ _ => Run.masked_shorter _, fun _ _ => Run.masked_shorter _⟩

lemma Interp.shorter_masked (i : Interp) :
    Interp.Shorter (fun signal => ∃ line cause, signal = .failure line cause) i i.masked :=
  ⟨rfl, fun _ _ => Run.shorter_masked_self _, fun _ _ => Run.shorter_masked_self _⟩

/-- Where a phrase raises a failure, its evaluation fails. -/
lemma Begun.Raises.stops {x : Begun} (h : x.Raises line cause) :
    x.Stops interpAt (.failure line cause) :=
  (Interp.masked_shorter _).step.stops h (by simp)

/-- **Stopped before every phrase that raises it, the failure never comes about.** -/
theorem Begun.not_stops_of_stopAt_raises {signal : Signal} (hsignal : signal ≠ .failure line cause)
    (fuel : Nat) : ∀ env p m,
      ¬((stopAt (Begun.Raises · line cause) signal).interpAt fuel).Stops env p m (.failure line cause) := by
  induction fuel with
  | zero =>
      rintro env (e | s) m ⟨m', hm'⟩ <;> cases hm'
  | succ fuel ih =>
      intro env p m hstops
      by_cases hraises : Begun.Raises ⟨fuel, env, p, m⟩ line cause
      · exact hsignal ((Guard.stops_of_some (Guard.stopAt_of hraises)).mp hstops).symm
      rw [Guard.stops_of_none (Guard.stopAt_of_not hraises)] at hstops
      -- the parts never fail so, and where they stop otherwise it does not matter if they are masked
      have hplain : Interp.Shorter (· ≠ .failure line cause)
          ((stopAt (Begun.Raises · line cause) signal).interpAt fuel) (interpAt fuel) := by
        rw [← Guard.interpAt_pass]
        refine Guard.shorter (fun x => ?_) fuel
        by_cases hx : x.Raises line cause
        · exact .inr ⟨signal, hsignal, (Guard.stops_of_some (Guard.stopAt_of hx)).mpr rfl⟩
        · exact .inl (Guard.stopAt_of_not hx)
      have hmasked : Interp.Shorter (· ≠ .failure line cause)
          ((stopAt (Begun.Raises · line cause) signal).interpAt fuel) (interpAt fuel).masked := by
        refine ⟨hplain.fuel, fun env e => ?_, fun env s => ?_⟩
        · refine Run.shorter_masked (hplain.eval env e) ?_
          rintro m _ m' hm' rfl
          exact ih env (.expr e) m ⟨m', hm'⟩
        · refine Run.shorter_masked (hplain.exec env s) ?_
          rintro m _ m' hm' rfl
          exact ih env (.stmt s) m ⟨m', hm'⟩
      exact hraises (hmasked.step.stops hstops (by simp))

namespace Program

/-- A failure of a run is raised by a phrase that the run comes to. -/
lemma begins_of_fails {m' : Machine} (h : Program.run fuel program m = .error (.failure line cause) m') :
    Program.Begins (Begun.Raises · line cause) fuel program m := by
  intro signal
  rcases Guard.run_stopAt (Begun.Raises · line cause) signal fuel program m with heq | hstop
  · rw [h] at heq
    by_cases hsignal : signal = .failure line cause
    · exact ⟨m', hsignal ▸ heq⟩
    · obtain ⟨p, m₁, hstops⟩ := Interp.exists_stops_of_run heq
      exact absurd hstops (Begun.not_stops_of_stopAt_raises hsignal fuel _ p m₁)
  · exact hstop

/-- A failure that a phrase raises is that of the whole run. -/
lemma fails_of_begins (h : Program.Begins (Begun.Raises · line cause) fuel program m) :
    ∃ m', Program.run fuel program m = .error (.failure line cause) m' := by
  have hends (signal : Signal) : (∃ m', Program.run fuel program m = .error signal m')
      ∨ ∃ m', Program.run fuel program m = .error (.failure line cause) m' := by
    have hshorter : Interp.Shorter (· = .failure line cause) (interpAt fuel)
        ((stopAt (Begun.Raises · line cause) signal).interpAt fuel) := by
      rw [← Guard.interpAt_pass]
      refine Guard.shorter (fun x => ?_) fuel
      by_cases hx : x.Raises line cause
      · refine .inr ⟨_, rfl, ?_⟩
        rw [Begun.Stops, Guard.interpAt_pass]
        exact hx.stops
      · exact .inl (Guard.stopAt_of_not hx).symm
    rw [Program.run_eq]
    rcases hshorter.run program m with heq | ⟨_, m', rfl, hrun⟩
    · rw [heq]
      exact .inl (h signal)
    · exact .inr ⟨m', hrun⟩
  -- the run cannot end with two signals, so it ends with the failure
  rcases hends .exhausted with ⟨m₁, h₁⟩ | h₁
  · rcases hends (.exit 0) with ⟨m₂, h₂⟩ | h₂
    · cases h₁.symm.trans h₂
    · exact h₂
  · exact h₁

/-- **A run fails if and only if it comes to a phrase that raises the failure itself.** -/
theorem fails_iff_begins : (∃ m', Program.run fuel program m = .error (.failure line cause) m')
    ↔ Program.Begins (Begun.Raises · line cause) fuel program m :=
  ⟨fun ⟨_, h⟩ => begins_of_fails h, fails_of_begins⟩

end Program

/-! ## Calls of native routines -/

namespace Interp

/-- A call that takes its arguments, up to where its callee is run. -/
lemma call_of_takes (i : Interp) {callee : Value} {callable : Callable} {args : List Value} (line : Nat)
    (hcallable : Callable.ofValue? callee = some callable)
    (htakes : takes callable.arity args.length = true) (m : Machine) :
    ∃ m₁, m₁.console = m.console ∧ i.call callee args line m =
      if callLimit ≤ m.calls.length then .error (.failure line .stackOverflow) m₁
      else (do
        let result ← i.invokeCallable callable args line
        Run.popCall
        Run.note fun m => "return " ++ callable.name ++ " " ++ result.result m.fieldNames
        return result) m₁ := by
  let pushed : Machine := { m with calls := ⟨callable.name, args⟩ :: m.calls }
  obtain ⟨noted, hnote, hcalls, hconsole⟩ : ∃ noted, Run.note (fun m => "call " ++ callable.name ++ " "
      ++ Value.detailedList m.fieldNames args) pushed = .ok () noted ∧ noted.calls = pushed.calls
        ∧ noted.console = m.console := by
    refine ⟨_, rfl, ?_⟩
    dsimp only
    split <;> exact ⟨rfl, rfl⟩
  have hlength : callLimit < noted.calls.length ↔ callLimit ≤ m.calls.length := by
    rw [hcalls]
    exact Nat.lt_succ_iff
  refine ⟨noted, hconsole, ?_⟩
  rw [call_eq i line hcallable htakes]
  show (i.listedCall callable args line >>= _) pushed = _
  rw [listedCall, bind_assoc, Run.bind_of_ok hnote, bind_assoc, Run.get_bind_apply]
  by_cases hlimit : callLimit ≤ m.calls.length
  · rw [if_pos hlimit]
    simp only [hlength, hlimit, if_true]
    rfl
  · rw [if_neg hlimit]
    simp only [hlength, hlimit, if_false]

/-- A native routine fails as it tells, on the line that it is given. -/
lemma invokeNative_of_failure {n : Native} {args : List Value} (line : Nat)
    (h : (n.apply args m.console).1 = .error (.failure cause)) :
    ∃ m', invokeNative n args line m = .error (.failure line cause) m' := by
  refine ⟨{ m with console := (n.apply args m.console).2 }, ?_⟩
  simp only [invokeNative, modifyGet, MonadStateOf.modifyGet, EStateM.modifyGet, bind, EStateM.bind, h]
  rfl

/-- The call of a native routine that takes its arguments fails as the routine tells, on its own line. -/
lemma call_native (i : Interp) {n : Native} {args : List Value} (line : Nat)
    (htakes : takes n.arity args.length = true) (hlimit : m.calls.length < callLimit)
    (happly : (n.apply args m.console).1 = .error (.failure cause)) :
    ∃ m', i.call (.native n) args line m = .error (.failure line cause) m' := by
  have hcallable : Callable.ofValue? (.native n) = some (.native n) := rfl
  obtain ⟨m₁, hconsole, hcall⟩ := i.call_of_takes line hcallable htakes m
  rw [hcall, if_neg (Nat.not_le.mpr hlimit)]
  obtain ⟨m', hm'⟩ := invokeNative_of_failure line (hconsole.symm ▸ happly)
  exact ⟨m', Run.bind_of_error hm'⟩

end Interp

namespace Begun

variable {x : Begun}

/-- The phrase calls a native routine, which takes its arguments and tells the cause; its closing parenthesis
is on the line. -/
def CallsNative (x : Begun) (line : Nat) (cause : Cause) : Prop :=
  ∃ callee paren args n values m₁ m₂, x.phrase = .expr (.call callee paren args) ∧ line = paren.line
    ∧ evalAt x.level x.env callee x.machine = .ok (.native n) m₁
    ∧ (interpAt x.level).evalAll x.env args m₁ = .ok values m₂
    ∧ Interp.takes n.arity values.length = true ∧ m₂.calls.length < callLimit
    ∧ (n.apply values m₂.console).1 = .error (.failure cause)

/-- The call of a native routine that tells a failure raises it. -/
lemma CallsNative.raises (h : x.CallsNative line cause) : x.Raises line cause := by
  obtain ⟨level, env, phrase, machine⟩ := x
  obtain ⟨callee, paren, args, n, values, m₁, m₂, rfl, rfl, hcallee, hargs, htakes, hlimit, happly⟩ := h
  have htarget : (interpAt level).masked.eval env callee machine = .ok (.native n) m₁ :=
    Run.masked_eq_ok.mpr hcallee
  have hvalues : (interpAt level).masked.evalAll env args m₁ = .ok values m₂ :=
    ((Interp.shorter_masked _).evalAll env args).eq_ok hargs
  obtain ⟨m', hm'⟩ := (interpAt level).masked.call_native paren.line htakes hlimit happly
  exact ⟨m', (Run.bind_of_ok htarget).trans ((Run.bind_of_ok hvalues).trans hm')⟩

end Begun

end KScript

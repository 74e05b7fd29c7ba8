import KScript.Proofs.Reach.Evaluation

/-!
# A call touches only what it can reach

Take the cells that can be reached from a callee and its arguments, and with them all cells that do not
exist yet.  Using only these is a policy: what is bound in them refers to no others, and new cells are among
them.  So a call leaves every other cell as it was, however it ends.
-/

namespace KScript

variable {m : Machine} {cell other : Cell} {v : Value}

/-! ## Cells of a changed machine -/

namespace Machine

lemma contents_of_not_has (h : ¬m.Has cell) : m.contents cell = Table.empty := by
  cases cell with
  | frame address => simp_all [Has, contents, Frames.frame]
  | object ident => simp_all [Has, contents, fieldsOf]

lemma has_put (name : String) : (m.put cell name v).Has other ↔ m.Has other := by
  cases cell <;> cases other <;> simp [put, Has]

lemma contents_put_of_ne (name : String) (h : other ≠ cell) :
    (m.put cell name v).contents other = m.contents other := by
  cases cell <;> cases other
  all_goals simp_all [put, contents, fieldsOf, Frames.frame_define, Array.getElem?_modify, eq_comm]

lemma contents_put_self (name : String) (h : m.Has cell) :
    (m.put cell name v).contents cell = (m.contents cell).insert name v := by
  cases cell with
  | frame address => simp_all [put, contents, Has, Frames.frame_define]
  | object ident => simp_all [put, contents, Has, fieldsOf, Array.getElem_modify]

lemma all_contents_put {Q : Value → Prop} (name : String) (h : (m.contents other).All Q) (hv : Q v) :
    ((m.put cell name v).contents other).All Q := by
  by_cases heq : other = cell
  · subst heq
    by_cases hcell : m.Has other
    · rw [contents_put_self name hcell]
      exact h.insert name hv
    · rw [contents_of_not_has (mt (has_put name).mp hcell)]
      exact .empty
  · rwa [contents_put_of_ne name heq]

lemma contents_newFrame (bindings : Table Value) : ({ m with frames := m.frames.push bindings }).contents cell
    = if cell = .frame m.frames.size then bindings else m.contents cell := by
  cases cell <;> simp [contents, fieldsOf, Frames.frame_push]

lemma all_contents_newFrame {Q : Value → Prop} {bindings : Table Value} (h : (m.contents cell).All Q)
    (hnew : bindings.All Q) : (({ m with frames := m.frames.push bindings }).contents cell).All Q := by
  rw [contents_newFrame]
  split
  · exact hnew
  · exact h

lemma contents_newObject :
    ({ m with fields := m.fields.push Table.empty }).contents cell = m.contents cell := by
  cases cell with
  | frame address => rfl
  | object ident =>
      simp only [contents, fieldsOf, Array.getElem?_push]
      split
      · simp_all
      · rfl

/-- Only frames and fields matter. -/
lemma contents_congr {n : Machine} (hframes : n.frames = m.frames) (hfields : n.fields = m.fields) :
    n.contents cell = m.contents cell := by
  cases cell <;> simp only [contents, fieldsOf, hframes, hfields]

end Machine

/-! ## The policy -/

/-- Only the given cells and new ones are used. -/
def Policy.confined (S : Cell → Prop) (hglobal : S (.frame Machine.globalAddress)) : Policy where
  Allowed := S
  Kind _ := True
  Ready := Closure.Within S
  Fine := Value.Within S
  Stops _ := False
  Inv m := (∀ cell, ¬m.Has cell → S cell) ∧ ∀ cell, S cell → (m.contents cell).All (Value.Within S)
  Step m n := ∀ cell, ¬S cell → n.contents cell = m.contents cell
  Cut m _ n := ∀ cell, ¬S cell → n.contents cell = m.contents cell
  ready := ⟨fun h => ⟨trivial, h⟩, And.right⟩
  scalar := Value.within_scalar
  array := Value.within_array.mpr
  routine := Value.within_routine
  classValue := Value.within_classValue
  object := Value.within_object
  refl _ _ _ := rfl
  trans h h' cell hcell := (h' cell hcell).trans (h cell hcell)
  cut _ _ _ _ := rfl
  cut_trans h h' cell hcell := (h' cell hcell).trans (h cell hcell)
  global := hglobal
  read hm hcell := hm.2 _ hcell
  put {m cell v} name hm hcell hv :=
    ⟨⟨fun other hnot => hm.1 other (mt (Machine.has_put name).mpr hnot),
      fun other hallowed => Machine.all_contents_put name (hm.2 other hallowed) hv⟩,
      fun other hnot => Machine.contents_put_of_ne name fun heq => hnot (heq ▸ hcell)⟩
  newFrame {m bindings} hm hbindings := by
    have hnew : S (.frame m.frames.size) := hm.1 _ (Nat.lt_irrefl _)
    refine ⟨hnew, ⟨fun other hnot => hm.1 other fun hhas => hnot ?_,
      fun other hallowed => Machine.all_contents_newFrame (hm.2 other hallowed) hbindings⟩,
      fun other hnot => ?_⟩
    · cases other with
      | frame address => simpa [Machine.Has] using Nat.lt_succ_of_lt hhas
      | object ident => exact hhas
    · rw [Machine.contents_newFrame, if_neg]
      rintro rfl
      exact hnot hnew
  newObject {m} hm := by
    refine ⟨hm.1 _ (Nat.lt_irrefl _), ⟨fun other hnot => hm.1 other fun hhas => hnot ?_,
      fun other hallowed => ?_⟩, fun other _ => Machine.contents_newObject⟩
    · cases other with
      | frame address => exact hhas
      | object ident => simpa [Machine.Has] using Nat.lt_succ_of_lt hhas
    · rw [Machine.contents_newObject]
      exact hm.2 other hallowed
  quiet {m n} hm hframes hfields _ := by
    have hcontents (cell : Cell) : n.contents cell = m.contents cell := Machine.contents_congr hframes hfields
    refine ⟨⟨fun cell hnot => hm.1 cell ?_, fun cell hallowed => ?_⟩, fun cell _ => hcontents cell⟩
    · cases cell with
      | frame address => simpa [Machine.Has, hframes] using hnot
      | object ident => simpa [Machine.Has, hfields] using hnot
    · rw [hcontents]
      exact hm.2 cell hallowed
  listed _ hm := hm
  unlisted hn hstep := ⟨hn, hstep⟩
  cut_listed h := h

/-! ## Calls -/

/-- The machine after a computation, however it ended. -/
def Run.after {α : Type} (x : Run α) (m : Machine) : Machine :=
  match x m with
  | .ok _ n => n
  | .error _ n => n

/-- A call uses only the cells that can be reached from the callee and the arguments, and new ones. -/
lemma contents_after_call (fuel : Nat) (callee : Value) (args : List Value) (line : Nat) (hhas : m.Has cell)
    (hcell : ¬m.Reaches (callee :: args) cell) :
    (((interpAt fuel).call callee args line).after m).contents cell = m.contents cell := by
  let S : Cell → Prop := fun c => m.Reaches (callee :: args) c ∨ ¬m.Has c
  let P := Policy.confined S (.inl .global)
  have hroots : ∀ v ∈ callee :: args, v.Within S := fun v hv c hc => .inl (.root hv hc)
  have hinv : P.Inv m := by
    refine ⟨fun c hc => .inr hc, fun c hc => ?_⟩
    rcases hc with hreached | hnot
    · exact fun name v hv d hd => .inl (.through hreached hv hd)
    · rw [Machine.contents_of_not_has hnot]
      exact .empty
  rw [List.forall_mem_cons] at hroots
  have hclosed : P.Closed := fun _ _ _ _ => trivial
  have hcall := ((interpAt_follows hclosed fuel).agrees hclosed).call hroots.1 hroots.2 line
  obtain ⟨-, hends⟩ := hcall.elim (fun _ => not_false) hinv
  have hnot : ¬S cell := not_or.mpr ⟨hcell, not_not.mpr hhas⟩
  unfold Run.after
  cases hrun : (interpAt fuel).call callee args line m with
  | ok a n =>
      rw [hrun] at hends
      exact hends.2.1 cell hnot
  | error s n =>
      rw [hrun] at hends
      exact hends cell hnot

/-- A frame other than the global one that nothing refers to cannot be reached. -/
lemma Machine.not_reaches_of_not_refers {address : Address} {roots : List Value}
    (hlocal : address ≠ globalAddress) (hroots : ∀ v ∈ roots, ¬v.Refers (.frame address))
    (hbound : ∀ c name v, (m.contents c).find? name = some v → ¬v.Refers (.frame address)) :
    ¬m.Reaches roots (.frame address) := by
  intro h
  cases h with
  | global => exact hlocal rfl
  | root hv hrefers => exact hroots _ hv hrefers
  | through _ hv hrefers => exact hbound _ _ _ hv hrefers

/-- Evaluating a call expression is evaluating its parts and then calling. -/
lemma evalAt_call {fuel : Nat} {env : Env} {callee : Expr Depth} {args : List (Expr Depth)}
    {before between : Machine} {target : Value} {values : List Value} (paren : Token)
    (hcallee : evalAt fuel env callee before = .ok target between)
    (hargs : (interpAt fuel).evalAll env args between = .ok values m) :
    evalAt (fuel + 1) env (.call callee paren args) before
      = (interpAt fuel).call target values paren.line m := by
  show (evalAt fuel env callee >>= fun target => (interpAt fuel).evalAll env args >>= fun values =>
    (interpAt fuel).call target values paren.line) before = _
  simp only [Bind.bind, EStateM.bind, hcallee, hargs]

/-- **A call touches only what it can reach.**  Once the callee and the arguments of a call are evaluated,
every frame and every object that can be reached neither from them nor from the global frame keeps its
bindings until the call has ended, be it with a value or not.  So does every frame of a caller that no value
has captured. -/
theorem call_untouched {fuel : Nat} {env : Env} {callee : Expr Depth} {args : List (Expr Depth)}
    {before between : Machine} {target : Value} {values : List Value} (paren : Token)
    (hcallee : evalAt fuel env callee before = .ok target between)
    (hargs : (interpAt fuel).evalAll env args between = .ok values m) :
    (∀ cell, m.Has cell → ¬m.Reaches (target :: values) cell →
        ((evalAt (fuel + 1) env (.call callee paren args)).after before).contents cell = m.contents cell)
      ∧ ∀ address, address < m.frames.size → address ≠ Machine.globalAddress →
          (∀ v ∈ target :: values, ¬v.Refers (.frame address)) →
          (∀ c name v, (m.contents c).find? name = some v → ¬v.Refers (.frame address)) →
          ((evalAt (fuel + 1) env (.call callee paren args)).after before).frames.frame address
            = m.frames.frame address := by
  have hafter : (evalAt (fuel + 1) env (.call callee paren args)).after before
      = ((interpAt fuel).call target values paren.line).after m := by
    simp only [Run.after, evalAt_call paren hcallee hargs]
  rw [hafter]
  refine ⟨fun cell hhas hcell => contents_after_call fuel target values paren.line hhas hcell, ?_⟩
  intro address hlt hlocal hroots hbound
  have hframe : m.Has (.frame address) := hlt
  exact contents_after_call fuel target values paren.line hframe
    (Machine.not_reaches_of_not_refers hlocal hroots hbound)

/-- A name as it stands in a script. -/
def word (lexeme : String) : Token := ⟨.identifier, lexeme, none, 1⟩

/-- A routine without parameters that gives the global `x` a new value. -/
def overwriter : Closure :=
  ⟨0, ⟨word "f", [], [.expr (.assign ⟨word "x", none⟩ (.literal (.string "new")))]⟩, [0], false⟩

/-- A block in which a local `x` hides the global one. -/
def hidingMachine : Machine where
  frames := #[⟨[("f", .routine overwriter), ("x", .text "old")]⟩, ⟨[("x", .text "local")]⟩]
  fields := #[]
  fresh := 1
  calls := []
  console := ⟨"", [], 0⟩
  tracing := false
  notes := []

/-- Calling the routine in that block changes the global variable and not the local one. -/
theorem call_untouched_hiding :
    evalAt 4 [1, 0] (.variable ⟨word "f", none⟩) hidingMachine = .ok (.routine overwriter) hidingMachine
      ∧ (interpAt 4).evalAll [1, 0] [] hidingMachine = .ok [] hidingMachine
      ∧ ¬hidingMachine.Reaches [.routine overwriter] (.frame 1)
      ∧ ((evalAt 5 [1, 0] (.call (.variable ⟨word "f", none⟩) (word ")") [])).after
          hidingMachine).contents (.frame 1) = hidingMachine.contents (.frame 1) := by
  have hcallee : evalAt 4 [1, 0] (.variable ⟨word "f", none⟩) hidingMachine
      = .ok (.routine overwriter) hidingMachine := rfl
  have hargs : (interpAt 4).evalAll [1, 0] [] hidingMachine = .ok [] hidingMachine := rfl
  have hroutine : ∀ c, (Value.routine overwriter).Refers c → c = .frame 0 := by
    rintro c (_ | ⟨address, haddress, rfl⟩)
    simpa [overwriter] using haddress
  have hreach : ∀ c, hidingMachine.Reaches [.routine overwriter] c → c = .frame 0 := by
    intro c h
    induction h with
    | global => rfl
    | root hv hrefers =>
        rw [List.mem_singleton.mp hv] at hrefers
        exact hroutine _ hrefers
    | @through source c name v _ hv hrefers ih =>
        subst ih
        change Table.lookup name [("f", .routine overwriter), ("x", .text "old")] = some v at hv
        simp only [Table.lookup] at hv
        split at hv
        · exact hroutine _ (Option.some.inj hv ▸ hrefers)
        · split at hv
          · rw [← Option.some.inj hv] at hrefers
            cases hrefers
          · cases hv
  have hnot : ¬hidingMachine.Reaches [.routine overwriter] (.frame 1) := fun h => by
    simpa using hreach _ h
  exact ⟨hcallee, hargs, hnot, (call_untouched (word ")") hcallee hargs).1 (.frame 1) Nat.one_lt_two hnot⟩

end KScript

import KScript.Proofs.Chronicle.Evaluation
import KScript.Proofs.Number.Equality
import KScript.Proofs.Session.Rejected

/-!
# Equality is identity of creation

Literal values are equal if they are of one kind and have one value (`Literal.same_iff`).  All other values of a
session are made by events, and no two events of a chronicle make values that are equal
(`Chronicle.Lawful.number_unique`).  So two values of a session are equal exactly if they are the same literal
value or come from the same event (`Chronicle.Lawful.same_iff`), in whichever scripts of the session they are
met.
-/

namespace KScript

open Chronicle

/-! ## Literal values -/

/-- The literal values are of one kind and have one value, which NaN has not. -/
inductive Literal.Equals : Literal → Literal → Prop where
  | zilch : Equals .zilch .zilch
  | bool (b : Bool) : Equals (.bool b) (.bool b)
  | string (s : String) : Equals (.string s) (.string s)
  | number {x : Float} (h : x.isNaN = false) : Equals (.number x) (.number x)
  /-- The two zeros have one value. -/
  | zero {x y : Float} (hx : Double.magnitude x = 0) (hy : Double.magnitude y = 0) :
      Equals (.number x) (.number y)

namespace Literal

variable {a b c : Literal}

lemma same_iff : a.same b = true ↔ a.Equals b := by
  constructor
  · intro h
    cases a <;> cases b <;> simp only [same, beq_iff_eq, Bool.false_eq_true] at h
    case zilch.zilch => exact .zilch
    case bool.bool p q => exact h ▸ .bool p
    case string.string s t => exact h ▸ .string s
    case number.number x y =>
      rcases (Double.beq_iff x y).mp h with ⟨rfl, hnumber⟩ | ⟨hx, hy⟩
      · exact .number hnumber
      · exact .zero hx hy
  · rintro (_ | p | s | hnumber | ⟨hx, hy⟩)
    · rfl
    · simp [same]
    · simp [same]
    · exact (Double.beq_iff _ _).mpr (.inl ⟨rfl, hnumber⟩)
    · exact (Double.beq_iff _ _).mpr (.inr ⟨hx, hy⟩)

lemma Equals.symm (h : a.Equals b) : b.Equals a := by
  cases h with
  | zilch => exact .zilch
  | bool p => exact .bool p
  | string s => exact .string s
  | number hnumber => exact .number hnumber
  | zero hx hy => exact .zero hy hx

lemma Equals.trans (h : a.Equals b) (h' : b.Equals c) : a.Equals c := by
  cases h with
  | zilch => exact h'
  | bool p => exact h'
  | string s => exact h'
  | number hnumber => exact h'
  | zero hx hy =>
      cases h' with
      | number hnumber => exact .zero hx hy
      | zero hy' hz => exact .zero hx hz

end Literal

/-! ## Values -/

namespace Value

variable {u v w : Value}

lemma same_symm (h : v.same w = true) : w.same v = true := by
  cases v <;> cases w <;> simp only [same, Literal.same_iff, beq_iff_eq, Bool.false_eq_true] at h ⊢
  case scalar.scalar a b => exact h.symm
  all_goals exact h.symm

lemma same_comm (v w : Value) : v.same w = w.same v := Bool.eq_iff_iff.mpr ⟨same_symm, same_symm⟩

lemma same_trans (h : u.same v = true) (h' : v.same w = true) : u.same w = true := by
  cases u <;> cases v <;> cases w <;>
    simp only [same, Literal.same_iff, beq_iff_eq, Bool.false_eq_true] at h h' ⊢
  case scalar.scalar.scalar a b c => exact h.trans h'
  all_goals exact h.trans h'

/-- A literal value is equal to literal values of its kind only. -/
lemma scalar_same_iff (a : Literal) (w : Value) :
    (Value.scalar a).same w = true ↔ ∃ b, w = .scalar b ∧ a.Equals b := by
  cases w with
  | scalar b => simp [same, Literal.same_iff]
  | _ => simp [same]

/-- Of all values only NaN differs from itself. -/
lemma same_self_iff (v : Value) : v.same v = true ↔ ∀ x, v = .number x → x.isNaN = false := by
  cases v with
  | scalar literal =>
      simp only [same, Literal.same_iff]
      cases literal with
      | number y =>
          constructor
          · rintro (_ | _ | _ | hnumber | ⟨hx, -⟩) x ⟨⟩
            · exact hnumber
            · exact Double.isNaN_of_magnitude_zero hx
          · exact fun h => .number (h y rfl)
      | zilch => simpa using Literal.Equals.zilch
      | bool b => simpa using Literal.Equals.bool b
      | string s => simpa using Literal.Equals.string s
  | _ => simp [same]

/-- The values are equal literal values, or one event has made both. -/
inductive Equal (past : List Entry) : Value → Value → Prop where
  | literal {a b : Literal} (h : a.Equals b) : Equal past (.scalar a) (.scalar b)
  | origin {v w : Value} (k : Nat) (hv : v.From past k) (hw : w.From past k) : Equal past v w

end Value

/-! ## Events -/

namespace Chronicle.Lawful

variable {past : List Entry} {v w : Value} {origin : Origin} {j k : Nat}

/-- What an event makes is no literal value, and so it is the same as itself. -/
lemma same_self (h : Lawful past) (hmade : .made origin v ∈ past) : v.same v = true := by
  obtain ⟨before, _, _, hmakes, _⟩ := h.law hmade
  rw [Value.same_self_iff]
  rintro x rfl
  cases origin <;> simp [Origin.Makes] at hmakes

/-- **No two events make values that are the same.** -/
theorem number_unique (h : Lawful past) (hv : v.From past j) (hw : w.From past k)
    (hsame : v.same w = true) : j = k := by
  obtain ⟨origin, hv⟩ := hv
  obtain ⟨origin', hw⟩ := hw
  induction past with
  | nil => cases hv
  | cons first rest ih =>
      obtain ⟨hlaw, hrest⟩ := h
      rw [nth_cons] at hv hw
      split at hv <;> split at hw
      · omega
      · cases hv
        rw [hlaw.2.1 origin' w (mem_iff_nth.mpr ⟨k, hw⟩)] at hsame
        cases hsame
      · cases hw
        rw [Value.same_comm, hlaw.2.1 origin v (mem_iff_nth.mpr ⟨j, hv⟩)] at hsame
        cases hsame
      · exact ih hrest hv hw

/-- A value of a chronicle is a literal one, or there is one event that it comes from. -/
lemma unique_origin (h : Lawful past) (hv : v.Seen past) :
    (∃ literal, v = .scalar literal) ∨ ∃! k, v.From past k := by
  refine (h.stems hv).imp id fun ⟨origin, hmade⟩ => ?_
  obtain ⟨k, hk⟩ := mem_iff_nth.mp hmade
  exact ⟨k, ⟨origin, hk⟩, fun j hj => h.number_unique hj ⟨origin, hk⟩ (h.same_self hmade)⟩

/-- **Values of a chronicle are equal exactly if they are equal literal values or come from one event.** -/
theorem same_iff (h : Lawful past) (hv : v.Seen past) (hw : w.Seen past) :
    v.same w = true ↔ v.Equal past w := by
  constructor
  · intro hsame
    rcases h.unique_origin hv with ⟨a, rfl⟩ | ⟨j, hj, -⟩
    · cases w with
      | scalar b => exact .literal (Literal.same_iff.mp hsame)
      | _ => cases hsame
    · rcases h.unique_origin hw with ⟨b, rfl⟩ | ⟨k, hk, -⟩
      · cases v with
        | scalar a => exact .literal (Literal.same_iff.mp hsame)
        | _ => cases hsame
      · obtain rfl := h.number_unique hj hk hsame
        exact .origin j hj hk
  · rintro (hequals | ⟨k, ⟨origin, hk⟩, ⟨origin', hk'⟩⟩)
    · exact Literal.same_iff.mpr hequals
    · obtain ⟨-, rfl⟩ := Entry.made.inj (Option.some.inj (hk.symm.trans hk'))
      exact h.same_self (mem_iff_nth.mpr ⟨k, hk⟩)

end Chronicle.Lawful

/-! ## Sessions -/

namespace Chronicle

/-- The events of native routines are lawful, each routine having one. -/
lemma lawful_builtIns {natives : List Native} (h : natives.Nodup) :
    Lawful (natives.map fun n => .made (.builtIn n) (.native n)) := by
  induction natives with
  | nil => trivial
  | cons n rest ih =>
      obtain ⟨hnew, hrest⟩ := List.nodup_cons.mp h
      refine ⟨⟨rfl, fun other w hmade => ?_, fun _ hpart => hpart.elim⟩, ih hrest⟩
      obtain ⟨m, hm, heq⟩ := List.mem_map.mp hmade
      cases heq
      simp only [Value.same, beq_eq_false_iff_ne]
      rintro rfl
      exact hnew hm

lemma latest_builtIns (natives : List Native) (cell : Cell) (name : String) :
    latest (natives.map fun n => .made (.builtIn n) (.native n)) cell name = none := by
  induction natives with
  | nil => rfl
  | cons n rest ih => exact ih

/-- A new session and its chronicle. -/
lemma sound_start (natives tracing : Bool) (input : String) (clock : Float) :
    (start natives tracing input clock).Sound := by
  have hother {cell : Cell} (hcell : cell ≠ .frame Machine.globalAddress) :
      ¬(Session.newMachine natives tracing input clock).Has cell := by
    cases cell with
    | frame address =>
        intro hlt
        have hzero : address = Machine.globalAddress := Nat.lt_one_iff.mp hlt
        exact hcell (by rw [hzero])
    | object ident => exact Nat.not_lt_zero ident
  have hglobal : (Session.newMachine natives tracing input clock).Has (.frame Machine.globalAddress) :=
    Nat.zero_lt_one
  cases natives with
  | false =>
      refine ⟨trivial, fun cell name => ?_, fun _ _ hmade => absurd hmade List.not_mem_nil, hglobal⟩
      by_cases hcell : cell = .frame Machine.globalAddress
      · subst hcell
        rfl
      · exact congrArg (·.find? name) (Machine.contents_of_not_has (hother hcell))
  | true =>
      refine ⟨?_, fun cell name => ?_, fun origin v hmade => ?_, hglobal⟩
      · refine (lawful_builtIns (by decide)).puts_append fun binding hbinding => ?_
        obtain ⟨n, hn, rfl⟩ := List.mem_map.mp hbinding
        exact .inr ⟨.builtIn n, List.mem_map.mpr ⟨n, hn, rfl⟩⟩
      · by_cases hcell : cell = .frame Machine.globalAddress
        · subst hcell
          exact find?_foldl_insert (t := .empty) (fun key => (latest_builtIns _ _ key).symm) name
        · refine (congrArg (·.find? name) (Machine.contents_of_not_has (hother hcell))).trans ?_
          exact ((latest_puts_append hcell name).trans (latest_builtIns _ _ name)).symm
      · obtain ⟨n, _, heq⟩ := List.mem_map.mp (mem_of_mem_puts_append hmade)
        cases heq
        trivial

lemma runScripts_append (a : Annals) (steps more : List Session.Step) :
    (runScripts a (steps ++ more)).2 = (runScripts (runScripts a steps).2 more).2 := by
  induction steps generalizing a with
  | nil => rfl
  | cons step steps ih => exact ih (runScript a step).2

end Chronicle

namespace Session

/-- The session after some steps. -/
def after (s : Session) (steps : List Step) : Session :=
  steps.foldl (fun s step => (s.runScript step.1 step.2).2) s

variable {a : Annals} {s : Session}

/-- The chronicle of a script follows it. -/
lemma chronicle_runScript (ha : a.Sound) (hmachine : a.machine = s.machine) (step : Step) :
    let told := Chronicle.runScript a step
    told.1 = (s.runScript step.1 step.2).1.outcome
      ∧ told.2.machine = (s.runScript step.1 step.2).2.machine
      ∧ told.2.Sound ∧ a.past <:+ told.2.past := by
  obtain ⟨source, echo⟩ := step
  rcases hprepare : prepare source with ⟨_ | ⟨report, reports⟩, program⟩
  · have hready : Annals.Sound { a with machine := ready a.machine } := ha.like ⟨rfl, rfl, rfl⟩
    have hfollows := run_follows fuel (echoed echo program) hready
    unfold Follows at hfollows
    simp only [Chronicle.runScript, runScript, hprepare, runProgram, tell, ← hmachine]
    dsimp only at hfollows
    generalize Chronicle.run fuel (echoed echo program) { a with machine := ready a.machine } = r
      at hfollows ⊢
    generalize Program.run fuel (echoed echo program) (ready a.machine) = r' at hfollows ⊢
    cases hfollows with
    | ok le sound _ | error le sound => exact ⟨rfl, rfl, sound, le.past⟩
  · simp [Chronicle.runScript, runScript, hprepare, tell, hmachine, ha]

/-- The chronicle of scripts one after the other follows the session. -/
lemma chronicle_runScripts (ha : a.Sound) (hmachine : a.machine = s.machine) (steps : List Step) :
    let told := Chronicle.runScripts a steps
    told.1 = (s.rows steps).map (·.report.outcome) ∧ told.2.machine = (s.after steps).machine
      ∧ told.2.Sound ∧ a.past <:+ told.2.past := by
  induction steps generalizing a s with
  | nil => exact ⟨rfl, hmachine, ha, List.suffix_rfl⟩
  | cons step steps ih =>
      obtain ⟨houtcome, hnext, hsound, hpast⟩ := chronicle_runScript ha hmachine step
      obtain ⟨houtcomes, hlast, hsound', hpast'⟩ := ih hsound hnext
      refine ⟨?_, hlast, hsound', hpast.trans hpast'⟩
      simp only [Chronicle.runScripts, rows, List.map_cons, houtcomes, houtcome]

/-- **Equality is identity of creation.**  Whatever scripts a session runs, there is a chronicle of it that
leaves their outcomes and the machine as they are.  The chronicle has its laws: each evaluation of an array
literal, each execution of a routine or class declaration, each construction of an object and each access that
binds a method is an event of its own, which makes a value that is equal to no earlier one; and a value that is
read from a variable, a parameter, a field or a captured frame, returned or passed on is the very value that
was last put there, returned or given.  The chronicle only grows from script to script, and

- all that is in a frame or in a field is what was last put there;
- every value of the session is a literal value, or comes from one event;
- two values are equal exactly if they are literal values of one kind with one value, or come from the same
  event, and a literal value is equal to no other.

Equality is symmetric and transitive, and only NaN differs from itself. -/
theorem equality_by_origin (natives tracing : Bool) (input : String) (clock : Float)
    (steps : List Step) :
    let session := Session.new natives tracing input clock
    let told := Chronicle.runScripts (Chronicle.start natives tracing input clock) steps
    let past := told.2.past
    (told.1 = (session.rows steps).map (·.report.outcome)
        ∧ told.2.machine = (session.after steps).machine)
      ∧ Lawful past
      ∧ (∀ more, past <:+
          (Chronicle.runScripts (Chronicle.start natives tracing input clock) (steps ++ more)).2.past)
      ∧ (∀ cell name, ((session.after steps).machine.contents cell).find? name = latest past cell name
          ∧ ∀ v, latest past cell name = some v → v.Seen past)
      ∧ (∀ v : Value, v.Seen past → (∃ literal, v = .scalar literal) ∨ ∃! k, v.From past k)
      ∧ (∀ v w : Value, v.Seen past → w.Seen past → (v.same w = true ↔ v.Equal past w))
      ∧ (∀ (a : Literal) (w : Value), (Value.scalar a).same w = true ↔ ∃ b, w = .scalar b ∧ a.Equals b)
      ∧ (∀ (op : Token) (v w : Value), op.kind = .equalEqual → Operator.binary op v w = .ok (.bool (v.same w)))
      ∧ (∀ (op : Token) (v w : Value), op.kind = .bangEqual → Operator.binary op v w = .ok (.bool (!v.same w)))
      ∧ (∀ v w : Value, v.same w = w.same v)
      ∧ (∀ u v w : Value, u.same v = true → v.same w = true → u.same w = true)
      ∧ ∀ v : Value, v.same v = true ↔ ∀ x, v = .number x → x.isNaN = false := by
  intro session told past
  obtain ⟨houtcomes, hmachine, hsound, -⟩ := chronicle_runScripts (s := session)
    (sound_start natives tracing input clock) rfl steps
  refine ⟨⟨houtcomes, hmachine⟩, hsound.lawful, fun more => ?_, fun cell name => ⟨?_, fun v hv => ?_⟩,
    fun v hv => hsound.lawful.unique_origin hv, fun v w hv hw => hsound.lawful.same_iff hv hw,
    Value.scalar_same_iff, fun op v w hop => ?_, fun op v w hop => ?_, Value.same_comm, fun u v w => Value.same_trans,
    Value.same_self_iff⟩
  · rw [runScripts_append]
    exact (chronicle_runScripts (s := session.after steps) hsound hmachine more).2.2.2
  · rw [← hmachine]
    exact hsound.memory cell name
  · exact .told (mem_of_latest hv) rfl
  · simp [Operator.binary, hop]
  · simp [Operator.binary, hop]

/-- An array is copied, and another one is made by the same literal. -/
def copyScript : String := "sub make() \x7b return [1]; \x7d var a = make(); var b = a; var c = make();"

/-- The array is kept in a field and comes back from there. -/
def fieldScript : String :=
  "class Box \x7b construct(x) \x7b this.x = x; \x7d \x7d var d = Box(a).x; print(a == d, a == c);"

/-- The copies are equal and come from one event, and the other array does not. -/
theorem equality_by_origin_fieldScript :
    let steps := [(copyScript, false), (fieldScript, false)]
    let past := (Chronicle.runScripts (Chronicle.start true false "" 0) steps).2.past
    let value := latest past (.frame Machine.globalAddress)
    ∃ a b c d, value "a" = some a ∧ value "b" = some b ∧ value "c" = some c ∧ value "d" = some d
      ∧ (a.Seen past ∧ b.Seen past ∧ c.Seen past ∧ d.Seen past)
      ∧ a.Equal past b ∧ a.Equal past d ∧ ¬a.Equal past c := by
  intro steps past value
  have hsame : ((value "a").bind fun a => (value "b").bind fun b => (value "c").bind fun c =>
      (value "d").map fun d => (a.same b, a.same d, a.same c)) = some (true, true, false) := by
    decide +kernel
  simp only [Option.bind_eq_some_iff, Option.map_eq_some_iff, Prod.mk.injEq] at hsame
  obtain ⟨a, ha, b, hb, c, hc, d, hd, hab, had, hac⟩ := hsame
  obtain ⟨-, -, -, hmemory, -, hequal, -⟩ := equality_by_origin true false "" 0 steps
  have hseen {name : String} {v : Value} (h : value name = some v) : v.Seen past :=
    (hmemory (.frame Machine.globalAddress) name).2 v h
  refine ⟨a, b, c, d, ha, hb, hc, hd, ⟨hseen ha, hseen hb, hseen hc, hseen hd⟩, ?_, ?_, ?_⟩
  · exact (hequal a b (hseen ha) (hseen hb)).mp hab
  · exact (hequal a d (hseen ha) (hseen hd)).mp had
  · intro hnot
    rw [(hequal a c (hseen ha) (hseen hc)).mpr hnot] at hac
    cases hac

end Session

end KScript

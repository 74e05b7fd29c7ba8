import KScript.Proofs.Eval.Outline
import KScript.Proofs.Lineage.Dispatch

/-!
# Runs that keep a record

Next to the plain run of a computation there is the run under a watch that knows what the record will be at
the end.  `Recorded` says that there is such a record, that the two runs do the same, and that the machine is
left knowing it; its rules follow the operations of `Run`.
-/

namespace KScript

open Scope

variable {sources : List String} {known : List Declared} {m : Machine} {α β : Type}

namespace Recorded

/-- The plain run ends on a machine that knows the later record. -/
def Ends (sources : List String) (known later : List Declared) (m : Machine) (Q : α → World → Prop) :
    EStateM.Result Signal Machine α → Prop
  | .ok a next => next.Knows sources later ∧ (m.world known).Le (next.world later) ∧ Q a (next.world later)
  | .error _ next => next.Knows sources later ∧ (m.world known).Le (next.world later)

end Recorded

/-- Under a watch that knows all that will be recorded, whatever signal it would stop with, the run `x` does
what the plain run `y` does. -/
def Recorded (sources : List String) (known : List Declared) (m : Machine)
    (x : List Declared × Signal → Run α) (y : Run α) (Q : α → World → Prop) : Prop :=
  ∃ later, (∀ all, later <:+ all.1 → x all m = y m) ∧ Recorded.Ends sources known later m Q (y m)

namespace Recorded

variable {x : List Declared × Signal → Run α} {y : Run α} {Q : α → World → Prop}

/-! ## Rules -/

lemma ok {z : Run α} {a : α} {next : Machine} (hrun : z m = .ok a next) (hnext : next.Knows sources known)
    (hle : (m.world known).Le (next.world known)) (hq : Q a (next.world known)) :
    Recorded sources known m (fun _ => z) z Q :=
  ⟨known, fun _ _ => rfl, by rw [hrun]; exact ⟨hnext, hle, hq⟩⟩

lemma error {z : Run α} {s : Signal} (hrun : z m = .error s m) (hm : m.Knows sources known) :
    Recorded sources known m (fun _ => z) z Q :=
  ⟨known, fun _ _ => rfl, by rw [hrun]; exact ⟨hm, .refl _⟩⟩

lemma pure {a : α} (hm : m.Knows sources known) (hq : Q a (m.world known)) :
    Recorded sources known m (fun _ => Pure.pure a) (Pure.pure a) Q :=
  ok rfl hm (.refl _) hq

lemma throw (hm : m.Knows sources known) (s : Signal) :
    Recorded sources known m (fun _ => throw s) (throw s) Q := error rfl hm

lemma fail (hm : m.Knows sources known) (line : Nat) (cause : Cause) :
    Recorded sources known m (fun _ => Run.fail line cause) (Run.fail line cause) Q := throw hm _

lemma imp {R : α → World → Prop} (h : Recorded sources known m x y Q)
    (himp : ∀ a w, (m.world known).Le w → Q a w → R a w) : Recorded sources known m x y R := by
  obtain ⟨later, hsame, hends⟩ := h
  refine ⟨later, hsame, ?_⟩
  cases hy : y m with
  | ok a next =>
      rw [hy] at hends
      exact ⟨hends.1, hends.2.1, himp a _ hends.2.1 hends.2.2⟩
  | error s next =>
      rw [hy] at hends
      exact hends

/-- One computation after the other. -/
lemma bind {f : List Declared × Signal → α → Run β} {g : α → Run β} {R : β → World → Prop}
    (h : Recorded sources known m x y Q)
    (hrest : ∀ a next later, next.Knows sources later → (m.world known).Le (next.world later) →
      Q a (next.world later) → Recorded sources later next (fun all => f all a) (g a) R) :
    Recorded sources known m (fun all => x all >>= f all) (y >>= g) R := by
  obtain ⟨later, hsame, hends⟩ := h
  unfold Recorded
  cases hy : y m with
  | error s next =>
      rw [hy] at hends
      rw [Run.bind_of_error hy]
      exact ⟨later, fun all hall => Run.bind_of_error ((hsame all hall).trans hy), hends⟩
  | ok a next =>
      rw [hy] at hends
      obtain ⟨hknows, hle, hq⟩ := hends
      obtain ⟨last, hsame', hends'⟩ := hrest a next later hknows hle hq
      refine ⟨last, fun all hall => ?_, ?_⟩
      · have hlater : later <:+ all.1 := by
          cases hg : g a next with
          | ok b final =>
              rw [hg] at hends'
              exact hends'.2.1.older.trans hall
          | error s final =>
              rw [hg] at hends'
              exact hends'.2.older.trans hall
        rw [Run.bind_of_ok hy]
        exact (Run.bind_of_ok ((hsame all hlater).trans hy)).trans (hsame' all hall)
      · rw [Run.bind_of_ok hy]
        cases hg : g a next with
        | ok b final =>
            rw [hg] at hends'
            exact ⟨hends'.1, hle.trans hends'.2.1, hends'.2.2⟩
        | error s final =>
            rw [hg] at hends'
            exact ⟨hends'.1, hle.trans hends'.2⟩

/-- The result is that of the plain run. -/
lemma traced (h : Recorded sources known m x y Q) : Recorded sources known m x y fun a w =>
    Q a w ∧ ∃ next, y m = .ok a next ∧ w.frames = next.frames := by
  obtain ⟨later, hsame, hends⟩ := h
  refine ⟨later, hsame, ?_⟩
  cases hy : y m with
  | ok a next =>
      rw [hy] at hends
      exact ⟨hends.1, hends.2.1, hends.2.2, next, rfl, rfl⟩
  | error s next =>
      rw [hy] at hends
      exact hends

/-- A computation that does the same on the machine. -/
lemma congr {z z' : Run α} (hrun : z m = z' m) (h : Recorded sources known m (fun _ => z') z' Q) :
    Recorded sources known m (fun _ => z) z Q := by
  obtain ⟨later, -, hends⟩ := h
  exact ⟨later, fun _ _ => rfl, hrun ▸ hends⟩

/-- A look at the machine. -/
lemma get_bind {f : List Declared × Signal → Machine → Run β} {g : Machine → Run β} {R : β → World → Prop}
    (h : Recorded sources known m (fun all => f all m) (g m) R) :
    Recorded sources known m (fun all => get >>= f all) (get >>= g) R := h

/-- A watch that lets the moment pass. -/
lemma watched {watch : List Declared × Signal → Run Unit}
    (hwatch : ∀ all, known <:+ all.1 → watch all m = .ok () m)
    (h : Recorded sources known m x y Q) :
    Recorded sources known m (fun all => watch all >>= fun _ => x all) y Q := by
  obtain ⟨later, hsame, hends⟩ := h
  refine ⟨later, fun all hall => ?_, hends⟩
  have hknown : known <:+ all.1 := by
    cases hy : y m with
    | ok a next =>
        rw [hy] at hends
        exact hends.2.1.older.trans hall
    | error s next =>
        rw [hy] at hends
        exact hends.2.older.trans hall
  rw [← hsame all hall]
  simp only [Bind.bind, EStateM.bind, hwatch all hknown]

lemma orFail {result : Except Cause α} (hm : m.Knows sources known) (line : Nat)
    (h : ∀ a, result = .ok a → Q a (m.world known)) :
    Recorded sources known m (fun _ => Run.orFail line result) (Run.orFail line result) Q := by
  cases result with
  | ok a => exact pure hm (h a rfl)
  | error cause => exact fail hm line cause

lemma orCrash {result : Except Crash α} (hm : m.Knows sources known)
    (h : ∀ a, result = .ok a → Q a (m.world known)) :
    Recorded sources known m (fun _ => Run.orCrash result) (Run.orCrash result) Q := by
  cases result with
  | ok a => exact pure hm (h a rfl)
  | error c => exact throw hm _

/-! ## Operations of the machine -/

/-- A change of anything but the cells. -/
lemma modifyGet {g : Machine → α × Machine} (hm : m.Knows sources known) (hq : Q (g m).1 (m.world known))
    (hquiet : (g m).2.frames = m.frames ∧ (g m).2.fields = m.fields ∧ m.fresh ≤ (g m).2.fresh) :
    Recorded sources known m (fun _ => modifyGet g) (modifyGet g) Q := by
  have hworld : (g m).2.world known = m.world known := by rw [Machine.world, Machine.world, hquiet.1]
  exact ok rfl (hm.congr hquiet.1 hquiet.2.1 hquiet.2.2) (hworld ▸ .refl _) (hworld ▸ hq)

lemma newIdent (hm : m.Knows sources known) :
    Recorded sources known m (fun _ => Run.newIdent) Run.newIdent fun _ _ => True :=
  modifyGet hm trivial ⟨rfl, rfl, Nat.le_succ _⟩

lemma write (hm : m.Knows sources known) (text : String) :
    Recorded sources known m (fun _ => Run.write text) (Run.write text) fun _ _ => True :=
  modifyGet hm trivial ⟨rfl, rfl, Nat.le_refl _⟩

lemma note (hm : m.Knows sources known) (text : Machine → String) :
    Recorded sources known m (fun _ => Run.note text) (Run.note text) fun _ _ => True := by
  refine modifyGet hm trivial ?_
  dsimp only
  split <;> exact ⟨rfl, rfl, Nat.le_refl _⟩

lemma pushCall (hm : m.Knows sources known) (call : CallRecord) :
    Recorded sources known m (fun _ => Run.pushCall call) (Run.pushCall call) fun _ _ => True :=
  modifyGet hm trivial ⟨rfl, rfl, Nat.le_refl _⟩

lemma popCall (hm : m.Knows sources known) :
    Recorded sources known m (fun _ => Run.popCall) Run.popCall fun _ _ => True :=
  modifyGet hm trivial ⟨rfl, rfl, Nat.le_refl _⟩

/-- A new frame; the names that it does not bind are not bound in it. -/
lemma newFrame (hm : m.Knows sources known) {bindings : Table Value}
    (h : bindings.All (Value.Linked sources (m.world known))) :
    Recorded sources known m (fun _ => Run.newFrame bindings) (Run.newFrame bindings) fun address w =>
      address = m.frames.size ∧ address < w.frames.size ∧ w.frames.frame address = bindings := by
  refine ok rfl (hm.newFrame h) (Machine.Knows.le_newFrame m known bindings)
    ⟨rfl, by simp [Machine.world], ?_⟩
  simp only [Machine.world, Frames.frame_push, if_pos]

lemma newObject (hm : m.Knows sources known) {cls : ClassValue} (hcls : cls.Known (m.world known)) :
    Recorded sources known m (fun _ => Run.newObject cls) (Run.newObject cls) fun object w =>
      object.cls = cls ∧ cls.Known w :=
  ok rfl hm.newObject (.refl _) ⟨rfl, hcls⟩

/-- A name that is not reserved is bound in a cell. -/
lemma put (hm : m.Knows sources known) (cell : Cell) {name : String} {v : Value}
    (hname : ∀ address, cell = .frame address → name ≠ thisName ∧ name ≠ superName)
    (hv : v.Linked sources (m.world known)) :
    Recorded sources known m (fun _ => modify fun m => m.put cell name v)
      (modify fun m => m.put cell name v) fun _ _ => True :=
  ok rfl (hm.put hname hv) (Machine.Knows.le_put m known v hname) trivial

lemma define (hm : m.Knows sources known) {name : Token} (hname : name.Declarable) {v : Value}
    (hv : v.Linked sources (m.world known)) (env : Env) :
    Recorded sources known m (fun _ => Run.define env name.lexeme v) (Run.define env name.lexeme v)
      fun _ _ => True := by
  cases env with
  | nil => exact pure hm trivial
  | cons address outer => exact put hm (.frame address) (fun _ _ => hname) hv

lemma putField (hm : m.Knows sources known) (object : Object) (name : String) {v : Value}
    (hv : v.Linked sources (m.world known)) :
    Recorded sources known m (fun _ => Run.putField object name v) (Run.putField object name v)
      fun _ _ => True :=
  put hm (.object object.ident) (fun _ heq => by cases heq) hv

/-- A number is drawn for a class that is ready otherwise: its declaration is recorded. -/
lemma declare (hm : m.Knows sources known) (made : Nat → Declared)
    (hident : ∀ n, (made n).cls.own.ident = n) (hsound : ∀ n, (made n).Sound)
    (hparent : ∀ n, ∀ parent ∈ (made n).cls.parent?, parent.Known (m.world known))
    (hkept : ∀ n, (made n).Kept sources (m.world known)) :
    Recorded sources known m (fun _ => Run.newIdent) Run.newIdent fun n w => (made n).cls.Known w := by
  have hle : (m.world known).Le
      (({ m with fresh := m.fresh + 1 } : Machine).world (made m.fresh :: known)) :=
    ⟨List.suffix_cons _ _, Nat.le_refl _, fun _ _ _ _ => rfl⟩
  refine ⟨made m.fresh :: known, fun _ _ => rfl, ?_, hle, _, List.mem_cons_self, rfl⟩
  exact
    { orderly := ⟨hsound _, fun old hold => by rw [hident]; exact hm.fresh old hold, hparent _, hm.orderly⟩
      fresh := List.forall_mem_cons.mpr ⟨by rw [hident]; exact Nat.lt_succ_self _,
        fun old hold => Nat.lt_succ_of_lt (hm.fresh old hold)⟩
      kept := List.forall_mem_cons.mpr ⟨(hkept _).mono hle, fun old hold => (hm.kept old hold).mono hle⟩
      linked := fun cell name v hv => (hm.linked cell name v hv).mono hle }

end Recorded

end KScript

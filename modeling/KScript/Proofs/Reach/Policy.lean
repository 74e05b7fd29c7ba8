import KScript.Eval
import KScript.Proofs.Eval.Heap
import KScript.Proofs.Reach.Cells

/-!
# Policies

A policy says which cells may be used, which routines may be called, and how the machine may change while a
computation runs: between its start and its normal end, and between its start and the moment at which it is
cut short.  Two computations follow a policy if they do the same and change the machine only in that way,
unless a signal that the policy allows for cuts the first of them short (`Policy.Obeys`).

Computations follow a policy if they are made of parts that do, so what has to be checked for a policy are the
few operations by which evaluation changes the machine.
-/

namespace KScript

/-- A policy, with the operations of the machine checked against it. -/
structure Policy where
  /-- The cells that may be used. -/
  Allowed : Cell → Prop
  /-- The routines that may be declared. -/
  Kind : Routine (Stmt Depth) → Prop
  /-- The routines that may be called. -/
  Ready : Closure → Prop
  /-- The values that may be used. -/
  Fine : Value → Prop
  /-- The signals that may cut the first of two computations short. -/
  Stops : Signal → Prop
  /-- What holds of the machine all along. -/
  Inv : Machine → Prop
  /-- How the machine may change up to a normal end. -/
  Step : Machine → Machine → Prop
  /-- How the machine may change up to being cut short. -/
  Cut : Machine → Signal → Machine → Prop
  ready : ∀ {c}, Ready c ↔ Kind c.decl ∧ Env.Within Allowed c.env
  scalar : ∀ literal, Fine (.scalar literal)
  array : ∀ {ident items}, (∀ v ∈ items, Fine v) → Fine (.array ident items)
  routine : ∀ {c}, Fine (.routine c) ↔ Ready c
  classValue : ∀ {cls}, Fine (.classValue cls) ↔ cls.Holding Ready
  object : ∀ {o}, Fine (.object o) ↔ Allowed (.object o.ident) ∧ o.cls.Holding Ready
  refl : ∀ m, Step m m
  trans : ∀ {m n k}, Step m n → Step n k → Step m k
  cut : ∀ {m} s, Inv m → Cut m s m
  cut_trans : ∀ {m n s k}, Step m n → Cut n s k → Cut m s k
  global : Allowed (.frame Machine.globalAddress)
  /-- What is bound in a cell that may be used may be used. -/
  read : ∀ {m cell}, Inv m → Allowed cell → (m.contents cell).All Fine
  put : ∀ {m cell v} (name : String), Inv m → Allowed cell → Fine v →
    Inv (m.put cell name v) ∧ Step m (m.put cell name v)
  newFrame : ∀ {m} {bindings : Table Value}, Inv m → bindings.All Fine →
    Allowed (.frame m.frames.size) ∧ Inv { m with frames := m.frames.push bindings }
      ∧ Step m { m with frames := m.frames.push bindings }
  newObject : ∀ {m}, Inv m → Allowed (.object m.fields.size)
    ∧ Inv { m with fields := m.fields.push Table.empty }
    ∧ Step m { m with fields := m.fields.push Table.empty }
  /-- Nothing but cells and the calls under way matters. -/
  quiet : ∀ {m n}, Inv m → n.frames = m.frames → n.fields = m.fields → n.calls = m.calls →
    Inv n ∧ Step m n
  /-- A call is listed while it runs. -/
  listed : ∀ {m} (call : CallRecord), Inv m → Inv { m with calls := call :: m.calls }
  unlisted : ∀ {m n} {call : CallRecord}, Inv n → Step { m with calls := call :: m.calls } n →
    Inv { n with calls := n.calls.tail } ∧ Step m { n with calls := n.calls.tail }
  cut_listed : ∀ {m s n} {call : CallRecord}, Cut { m with calls := call :: m.calls } s n → Cut m s n

namespace Policy

variable {P : Policy} {α β : Type} {m : Machine} {Q : α → Prop} {R : β → Prop}

/-- The frames of the environment may be used. -/
abbrev Admits (P : Policy) (env : Env) : Prop := Env.Within P.Allowed env

/-- A method that has got its receiver may be called. -/
lemma ready_bound {c : Closure} (h : P.Ready c) {address : Address} (ha : P.Allowed (.frame address))
    (ident : Nat) : P.Ready { c with ident, env := address :: c.env } :=
  P.ready.mpr ⟨(P.ready.mp h).1, (P.ready.mp h).2.cons ha⟩

/-- A run that began in the machine `m` ends as it should. -/
def Ends (P : Policy) (m : Machine) (Q : α → Prop) : EStateM.Result Signal Machine α → Prop
  | .ok a n => P.Inv n ∧ P.Step m n ∧ Q a
  | .error s n => P.Cut m s n

/-- What began later began earlier as well. -/
lemma Ends.after {n : Machine} {r : EStateM.Result Signal Machine α} (hstep : P.Step m n)
    (h : P.Ends n Q r) : P.Ends m Q r := by
  cases r with
  | ok a k => exact ⟨h.1, P.trans hstep h.2.1, h.2.2⟩
  | error s k => exact P.cut_trans hstep h

/-- The computations follow the policy, and their result has the property. -/
def Obeys (P : Policy) (x y : Run α) (Q : α → Prop) : Prop :=
  ∀ m, P.Inv m → (∃ s n, P.Stops s ∧ x m = .error s n) ∨ x m = y m ∧ P.Ends m Q (y m)

namespace Obeys

variable {x y : Run α} {f g : α → Run β}

/-- Where no signal is allowed for, the computations do the same. -/
lemma elim (h : P.Obeys x y Q) (hstops : ∀ s, ¬P.Stops s) (hm : P.Inv m) :
    x m = y m ∧ P.Ends m Q (y m) :=
  (h m hm).resolve_left fun ⟨s, _, hs, _⟩ => hstops s hs

/-- Another computation that does the same as one that follows the policy. -/
lemma congr (h : P.Obeys x x Q) (heq : ∀ m, P.Inv m → x m = y m) : P.Obeys x y Q := by
  intro m hm
  refine (h m hm).imp_right fun hends => ⟨heq m hm, ?_⟩
  rw [← heq m hm]
  exact hends.2

/-! ## Rules -/

lemma pure {a : α} (h : Q a) : P.Obeys (pure a) (pure a) Q := fun m hm => .inr ⟨rfl, hm, P.refl m, h⟩

lemma throw (s : Signal) : P.Obeys (throw s) (throw s) Q := fun _ hm => .inr ⟨rfl, P.cut s hm⟩

lemma fail (line : Nat) (cause : Cause) : P.Obeys (Run.fail line cause) (Run.fail line cause) Q := throw _

lemma imp {Q' : α → Prop} (h : P.Obeys x y Q) (himp : ∀ a, Q a → Q' a) : P.Obeys x y Q' := by
  intro m hm
  refine (h m hm).imp_right fun ⟨heq, hends⟩ => ⟨heq, ?_⟩
  cases hrun : y m with
  | ok a n =>
      rw [hrun] at hends
      exact ⟨hends.1, hends.2.1, himp a hends.2.2⟩
  | error s n =>
      rw [hrun] at hends
      exact hends

/-- One computation after the other. -/
lemma bind (hx : P.Obeys x y Q) (hf : ∀ a, Q a → P.Obeys (f a) (g a) R) :
    P.Obeys (x >>= f) (y >>= g) R := by
  intro m hm
  rcases hx m hm with ⟨s, n, hs, hrun⟩ | ⟨heq, hends⟩
  · exact .inl ⟨s, n, hs, Run.bind_of_error hrun⟩
  · cases hrun : y m with
    | error s n =>
        rw [hrun] at heq hends
        rw [Run.bind_of_error heq, Run.bind_of_error hrun]
        exact .inr ⟨rfl, hends⟩
    | ok a n =>
        rw [hrun] at heq hends
        rw [Run.bind_of_ok heq, Run.bind_of_ok hrun]
        exact (hf a hends.2.2 n hends.1).imp_right fun h => ⟨h.1, h.2.after hends.2.1⟩

/-- A look at the machine. -/
lemma get_bind {f g : Machine → Run β} (h : ∀ m, P.Inv m → P.Obeys (f m) (g m) R) :
    P.Obeys (get >>= f) (get >>= g) R := fun m hm => h m hm m hm

lemma orFail {result : Except Cause α} (line : Nat) (h : ∀ a, result = .ok a → Q a) :
    P.Obeys (Run.orFail line result) (Run.orFail line result) Q := by
  cases result with
  | ok a => exact pure (h a rfl)
  | error cause => exact fail line cause

lemma orCrash {result : Except Crash α} (h : ∀ a, result = .ok a → Q a) :
    P.Obeys (Run.orCrash result) (Run.orCrash result) Q := by
  cases result with
  | ok a => exact pure (h a rfl)
  | error c => exact throw _

/-! ## Operations of the machine -/

/-- A change of anything but the cells and the calls under way. -/
lemma modifyGet {g : Machine → α × Machine} (hq : ∀ m, Q (g m).1)
    (hquiet : ∀ m, (g m).2.frames = m.frames ∧ (g m).2.fields = m.fields ∧ (g m).2.calls = m.calls) :
    P.Obeys (modifyGet g) (modifyGet g) Q := by
  intro m hm
  obtain ⟨hframes, hfields, hcalls⟩ := hquiet m
  obtain ⟨hn, hstep⟩ := P.quiet hm hframes hfields hcalls
  exact .inr ⟨rfl, hn, hstep, hq m⟩

lemma newIdent : P.Obeys Run.newIdent Run.newIdent fun _ => True :=
  modifyGet (fun _ => trivial) fun _ => ⟨rfl, rfl, rfl⟩

lemma write (text : String) : P.Obeys (Run.write text) (Run.write text) fun _ => True :=
  modifyGet (fun _ => trivial) fun _ => ⟨rfl, rfl, rfl⟩

lemma note (text : Machine → String) : P.Obeys (Run.note text) (Run.note text) fun _ => True := by
  refine modifyGet (fun _ => trivial) fun m => ?_
  dsimp only
  split <;> exact ⟨rfl, rfl, rfl⟩

lemma newFrame {bindings : Table Value} (h : bindings.All P.Fine) :
    P.Obeys (Run.newFrame bindings) (Run.newFrame bindings) fun address => P.Allowed (.frame address) := by
  intro m hm
  obtain ⟨hallowed, hn, hstep⟩ := P.newFrame hm h
  exact .inr ⟨rfl, hn, hstep, hallowed⟩

lemma newObject {cls : ClassValue} (h : cls.Holding P.Ready) :
    P.Obeys (Run.newObject cls) (Run.newObject cls) fun o => P.Fine (.object o) := by
  intro m hm
  obtain ⟨hallowed, hn, hstep⟩ := P.newObject hm
  exact .inr ⟨rfl, hn, hstep, P.object.mpr ⟨hallowed, h⟩⟩

/-- Binding a name in a cell. -/
lemma put {v : Value} (cell : Cell) (name : String) (hcell : P.Allowed cell) (hv : P.Fine v) :
    P.Obeys (modify fun m => m.put cell name v) (modify fun m => m.put cell name v) fun _ => True := by
  intro m hm
  obtain ⟨hn, hstep⟩ := P.put name hm hcell hv
  exact .inr ⟨rfl, hn, hstep, trivial⟩

lemma define {env : Env} {v : Value} (henv : P.Admits env) (name : String) (hv : P.Fine v) :
    P.Obeys (Run.define env name v) (Run.define env name v) fun _ => True := by
  cases env with
  | nil => exact pure trivial
  | cons address outer => exact put (.frame address) name (henv address List.mem_cons_self) hv

lemma putField {o : Object} {v : Value} (ho : P.Fine (.object o)) (name : String) (hv : P.Fine v) :
    P.Obeys (Run.putField o name v) (Run.putField o name v) fun _ => True :=
  put (.object o.ident) name (P.object.mp ho).1 hv

/-- A computation while a call is listed. -/
lemma listed (call : CallRecord) (hx : P.Obeys x y Q) (hf : ∀ a, Q a → P.Obeys (f a) (g a) R) :
    P.Obeys (Run.pushCall call >>= fun _ => x >>= fun a => Run.popCall >>= fun _ => f a)
      (Run.pushCall call >>= fun _ => y >>= fun a => Run.popCall >>= fun _ => g a) R := by
  intro m hm
  have hpush : Run.pushCall call m = .ok () { m with calls := call :: m.calls } := rfl
  rw [Run.bind_of_ok hpush, Run.bind_of_ok hpush]
  rcases hx _ (P.listed call hm) with ⟨s, n, hs, hrun⟩ | ⟨heq, hends⟩
  · exact .inl ⟨s, n, hs, Run.bind_of_error hrun⟩
  · cases hrun : y { m with calls := call :: m.calls } with
    | error s n =>
        rw [hrun] at heq hends
        rw [Run.bind_of_error heq, Run.bind_of_error hrun]
        exact .inr ⟨rfl, P.cut_listed hends⟩
    | ok a n =>
        rw [hrun] at heq hends
        have hpop : Run.popCall n = .ok () { n with calls := n.calls.tail } := rfl
        rw [Run.bind_of_ok heq, Run.bind_of_ok hrun, Run.bind_of_ok hpop, Run.bind_of_ok hpop]
        obtain ⟨hn, hstep⟩ := P.unlisted hends.1 hends.2.1
        exact (hf a hends.2.2 _ hn).imp_right fun h => ⟨h.1, h.2.after hstep⟩

end Obeys

end Policy

end KScript

import KScript.Proofs.Reach.Confinement

/-!
# The code on a machine

The routines that a run can call are those that are held by the values on its machine.  `Carries` says
that all of them are of a kind.  Keeping it so is a policy (`Policy.carrying`), and two computations agree on
such machines if they follow it (`Run.Agree`).
-/

namespace KScript

/-- The closure can be called through the value. -/
inductive Value.Holds : Value → Closure → Prop where
  | item {ident : Nat} {items : List Value} {v : Value} {c : Closure} (hv : v ∈ items)
      (h : Holds v c) : Holds (.array ident items) c
  | routine (c : Closure) : Holds (.routine c) c
  | classValue {cls : ClassValue} {l : Layer} {c : Closure} (hl : l ∈ cls.lineage)
      (h : l.Holds c) : Holds (.classValue cls) c
  | object {o : Object} {l : Layer} {c : Closure} (hl : l ∈ o.cls.lineage) (h : l.Holds c) :
      Holds (.object o) c

section

variable (K : Routine (Stmt Depth) → Prop)

/-- All routines of the class are of the kind. -/
abbrev ClassValue.Carries (cls : ClassValue) : Prop := cls.Holding fun c => K c.decl

/-- All routines that the value holds are of the kind. -/
def Value.Carries (v : Value) : Prop := ∀ c, v.Holds c → K c.decl

/-- What can be called is of the kind. -/
def Callable.Carries : Callable → Prop
  | .native _ => True
  | .routine c => K c.decl
  | .classValue cls => cls.Carries K

/-- What is given back holds only routines of the kind. -/
def Completion.Carries (c : Completion) : Prop := ∀ v, c = .returned v → v.Carries K

/-- All routines on the machine are of the kind. -/
def Machine.Carries (m : Machine) : Prop := ∀ cell, (m.contents cell).All (Value.Carries K)

end

variable {K : Routine (Stmt Depth) → Prop}

namespace Value

@[simp] lemma carries_scalar (literal : Literal) : (Value.scalar literal).Carries K := by
  intro c hc
  cases hc

@[simp] lemma carries_native (n : Native) : (Value.native n).Carries K := by
  intro c hc
  cases hc

@[simp] lemma carries_array {ident : Nat} {items : List Value} :
    (Value.array ident items).Carries K ↔ ∀ v ∈ items, v.Carries K := by
  constructor
  · exact fun h v hv c hc => h c (.item hv hc)
  · rintro h c (⟨hv, hc⟩ | _)
    exact h _ hv c hc

@[simp] lemma carries_routine {c : Closure} : (Value.routine c).Carries K ↔ K c.decl := by
  constructor
  · exact fun h => h c (.routine c)
  · rintro h c (_ | _)
    exact h

@[simp] lemma carries_classValue {cls : ClassValue} :
    (Value.classValue cls).Carries K ↔ cls.Carries K := by
  constructor
  · exact fun h l hl c hc => h c (.classValue hl hc)
  · rintro h c (_ | _ | ⟨hl, hc⟩)
    exact h _ hl c hc

@[simp] lemma carries_object {o : Object} : (Value.object o).Carries K ↔ o.cls.Carries K := by
  constructor
  · exact fun h l hl c hc => h c (.object hl hc)
  · rintro h c (_ | _ | _ | ⟨hl, hc⟩)
    exact h _ hl c hc

lemma Carries.callable {v : Value} (h : v.Carries K) {callable : Callable}
    (hcallable : Callable.ofValue? v = some callable) : callable.Carries K := by
  cases v with
  | native n =>
      cases hcallable
      trivial
  | routine c =>
      cases hcallable
      exact carries_routine.mp h
  | classValue cls =>
      cases hcallable
      exact carries_classValue.mp h
  | _ => cases hcallable

end Value

/-! ## Machines -/

namespace Machine.Carries

variable {m n : Machine}

lemma put (h : m.Carries K) (cell : Cell) (name : String) {v : Value} (hv : v.Carries K) :
    (m.put cell name v).Carries K := fun other => all_contents_put name (h other) hv

lemma newFrame (h : m.Carries K) {bindings : Table Value} (hnew : bindings.All (Value.Carries K)) :
    Machine.Carries K { m with frames := m.frames.push bindings } :=
  fun cell => all_contents_newFrame (h cell) hnew

lemma newObject (h : m.Carries K) :
    Machine.Carries K { m with fields := m.fields.push Table.empty } := by
  intro cell
  rw [contents_newObject]
  exact h cell

/-- Nothing but the cells matters. -/
lemma congr (h : m.Carries K) (hframes : n.frames = m.frames) (hfields : n.fields = m.fields) :
    n.Carries K := by
  intro cell
  rw [contents_congr hframes hfields]
  exact h cell

end Machine.Carries

/-! ## Runs that agree -/

/-- All code on the machine is of the kind. -/
def Policy.carrying (K : Routine (Stmt Depth) → Prop) : Policy where
  Allowed _ := True
  Kind := K
  Ready c := K c.decl
  Fine := Value.Carries K
  Stops _ := False
  Inv := Machine.Carries K
  Step _ _ := True
  Cut _ _ := Machine.Carries K
  ready := ⟨fun h => ⟨h, fun _ _ => trivial⟩, And.left⟩
  scalar := Value.carries_scalar
  array := Value.carries_array.mpr
  routine := Value.carries_routine
  classValue := Value.carries_classValue
  object := Value.carries_object.trans ⟨fun h => ⟨trivial, h⟩, And.right⟩
  refl _ := trivial
  trans _ _ := trivial
  cut _ hm := hm
  cut_trans _ h := h
  global := trivial
  read hm _ := hm _
  put name hm _ hv := ⟨hm.put _ name hv, trivial⟩
  newFrame hm hnew := ⟨trivial, hm.newFrame hnew, trivial⟩
  newObject hm := ⟨trivial, hm.newObject, trivial⟩
  quiet hm hframes hfields _ := ⟨hm.congr hframes hfields, trivial⟩
  listed _ hm := hm.congr rfl rfl
  unlisted hn _ := ⟨hn.congr rfl rfl, trivial⟩
  cut_listed h := h

/-- Every environment is admitted. -/
lemma Env.Within.carrying (env : Env) : (Policy.carrying K).Admits env := fun _ _ => trivial

namespace Run

variable {α : Type} {Q : α → Prop} {x y : Run α}

/-- On machines whose code is of the kind, the two computations do the same. -/
def Same (K : Routine (Stmt Depth) → Prop) (x y : Run α) : Prop := ∀ m, m.Carries K → x m = y m

/-- The two computations do the same, and they keep the code of the kind. -/
abbrev Agree (K : Routine (Stmt Depth) → Prop) (x y : Run α) (Q : α → Prop) : Prop :=
  (Policy.carrying K).Obeys x y Q

namespace Same

lemma refl (x : Run α) : Same K x x := fun _ _ => rfl

lemma trans {z : Run α} (h : Same K x y) (h' : Same K y z) : Same K x z :=
  fun m hm => (h m hm).trans (h' m hm)

end Same

end Run

/-- What comes after runs that agree may differ on machines that no run leaves. -/
lemma Policy.Obeys.bind_same {α β : Type} {Q : α → Prop} {x y : Run α} {f g : α → Run β}
    (h : Run.Agree K x y Q) (hf : ∀ a, Q a → Run.Same K (f a) (g a)) :
    Run.Same K (x >>= f) (y >>= g) := by
  intro m hm
  obtain ⟨heq, hends⟩ := h.elim (fun _ => id) hm
  simp only [Bind.bind, EStateM.bind, heq]
  cases hrun : y m with
  | error s n => rfl
  | ok a n =>
      rw [hrun] at hends
      exact hf a hends.2.2 n hends.1

end KScript

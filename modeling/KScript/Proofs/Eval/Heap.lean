import KScript.Machine
import KScript.Proofs.Env.Frames
import KScript.Proofs.Scope.Settled

/-!
# Frames and the scopes they are made for

`Frames.Mirror` relates an environment to the scopes around a place: there is one frame for each scope,
in the same order, and the global frame at the end; each frame binds at least the names that are ready in
its scope.  Frames are never taken away and names are never unbound (`Frames.Le`), so an environment that
mirrors some scopes goes on to do so.

A closure fits if its body was admitted in a context whose scopes its environment mirrors, and a machine
is sound if everything that can be reached in it fits.
-/

namespace KScript

open Scope

/-- A look at the machine hands it on as it is. -/
lemma Run.get_bind_apply {α : Type} (f : Machine → Run α) (m : Machine) :
    (get >>= f) m = f m m := rfl

lemma Run.bind_of_ok {α β : Type} {x : Run α} {f : α → Run β} {a : α} {m next : Machine}
    (h : x m = .ok a next) : (x >>= f) m = f a next := by
  simp only [Bind.bind, EStateM.bind, h]

lemma Run.bind_of_error {α β : Type} {x : Run α} {f : α → Run β} {signal : Signal} {m next : Machine}
    (h : x m = .error signal next) : (x >>= f) m = .error signal next := by
  simp only [Bind.bind, EStateM.bind, h]

namespace Frames

variable {frames next : Frames Value}

/-! ## Frames only grow -/

/-- There are at least as many frames, and each binds at least the names that it bound. -/
structure Le (frames next : Frames Value) : Prop where
  size : frames.size ≤ next.size
  keeps : ∀ address name, (frames.frame address).contains name = true →
    (next.frame address).contains name = true

namespace Le

lemma refl (frames : Frames Value) : frames.Le frames := ⟨Nat.le_refl _, fun _ _ h => h⟩

lemma trans {last : Frames Value} (h : frames.Le next) (h' : next.Le last) : frames.Le last :=
  ⟨Nat.le_trans h.size h'.size, fun address name hname => h'.keeps address name (h.keeps _ _ hname)⟩

lemma push (frames : Frames Value) (bindings : Table Value) : Le frames (frames.push bindings) where
  size := by simp
  keeps address name h := by
    rw [frame_push]
    split
    · next heq =>
        rw [heq] at h
        simp [frame, Table.contains] at h
    · exact h

lemma define (frames : Frames Value) (target : Address) (name : String) (value : Value) :
    frames.Le (frames.define target name value) where
  size := by simp
  keeps address key h := by
    rw [frame_define]
    split
    · rw [Table.contains_insert, h, Bool.or_true]
    · exact h

end Le

/-! ## Environments and scopes -/

/-- The frames of an environment are those of the scopes, with the global one at the end. -/
structure Mirror (frames : Frames Value) (env : Env) (scopes : Scopes) : Prop where
  /-- There is one frame for each scope, and the global one. -/
  length : env.length = scopes.length + 1
  last : env[scopes.length]? = some Machine.globalAddress
  /-- The frame of a scope binds the names that are ready in it. -/
  binds : ∀ (i : Nat) (scope : Scope), scopes[i]? = some scope → ∃ address, env[i]? = some address
    ∧ address < frames.size
    ∧ ∀ name, scope.find? name = some true → (frames.frame address).contains name = true

namespace Mirror

variable {env : Env} {scopes : Scopes} {scope : Scope} {address : Address}

lemma mono (h : frames.Mirror env scopes) (hle : frames.Le next) : next.Mirror env scopes where
  length := h.length
  last := h.last
  binds i scope hscope := by
    obtain ⟨address, haddress, hlt, hnames⟩ := h.binds i scope hscope
    exact ⟨address, haddress, Nat.lt_of_lt_of_le hlt hle.size,
      fun name hname => hle.keeps address name (hnames name hname)⟩

lemma global (frames : Frames Value) : frames.Mirror Machine.globalEnv [] where
  length := rfl
  last := rfl
  binds i scope hscope := by simp at hscope

/-- A frame for one scope more. -/
lemma push (h : frames.Mirror env scopes) (hlt : address < frames.size)
    (hnames : ∀ name, scope.find? name = some true → (frames.frame address).contains name = true) :
    frames.Mirror (address :: env) (scope :: scopes) where
  length := by simp [h.length]
  last := h.last
  binds i s hs := by
    cases i with
    | zero =>
        cases hs
        exact ⟨address, rfl, hlt, hnames⟩
    | succ i => exact h.binds i s hs

lemma tail (h : frames.Mirror (address :: env) (scope :: scopes)) : frames.Mirror env scopes where
  length := by simpa using h.length
  last := h.last
  binds i s hs := h.binds (i + 1) s hs

/-- There is a frame for the innermost scope. -/
lemma cons (h : frames.Mirror env (scope :: scopes)) : ∃ address outer, env = address :: outer
    ∧ address < frames.size
    ∧ ∀ name, scope.find? name = some true → (frames.frame address).contains name = true := by
  obtain ⟨address, haddress, hlt, hnames⟩ := h.binds 0 scope rfl
  cases env with
  | nil => cases haddress
  | cons first outer =>
      cases haddress
      exact ⟨address, outer, rfl, hlt, hnames⟩

end Mirror

end Frames

/-! ## Values that fit -/

variable {U : List Use} {frames next : Frames Value}

/-- The body of a closure was admitted in a routine in that context. -/
def Closure.Admitted (U : List Use) (c : Context) (closure : Closure) : Prop :=
  ∃ kind body, closure.decl.body = Stmt.resolveAll (c.inRoutine kind closure.decl.params) body
    ∧ (∀ p ∈ closure.decl.params, p.Declarable)
    ∧ Stmt.AdmittedAll U (c.inRoutine kind closure.decl.params) body

/-- The closure can be called: its environment is that of the context around its body, and if it
gives a receiver back, the innermost frame is that of the receiver. -/
def Closure.Fits (U : List Use) (frames : Frames Value) (closure : Closure) : Prop :=
  ∃ c : Context, c.Settled ∧ closure.Admitted U c ∧ frames.Mirror closure.env c.scopes
    ∧ (closure.isConstructor = true → ∃ outer, c.scopes = Table.singleton thisName true :: outer)

/-- The closure can be called once it has a receiver. -/
def Closure.FitsMethod (U : List Use) (frames : Frames Value) (closure : Closure) : Prop :=
  ∃ c : Context, c.withReceiver.Settled ∧ closure.Admitted U c.withReceiver
    ∧ frames.Mirror closure.env c.scopes

/-- The routines of a layer fit; accessors take as many arguments as they are given. -/
structure Layer.Fits (U : List Use) (frames : Frames Value) (l : Layer) : Prop where
  methods : ∀ name closure, l.methods.find? name = some closure → closure.FitsMethod U frames
  statics : ∀ name closure, l.statics.find? name = some closure → closure.Fits U frames
  getters : ∀ name closure, l.getters.find? name = some closure →
    closure.FitsMethod U frames ∧ closure.decl.params.length = 0
  setters : ∀ name closure, l.setters.find? name = some closure →
    closure.FitsMethod U frames ∧ closure.decl.params.length = 1

/-- The layers of a class fit. -/
def ClassValue.Fits (U : List Use) (frames : Frames Value) (cls : ClassValue) : Prop :=
  ∀ l ∈ cls.lineage, l.Fits U frames

/-- The value fits: whatever can be called through it fits. -/
inductive Value.Fits (U : List Use) (frames : Frames Value) : Value → Prop where
  | scalar (literal : Literal) : Fits U frames (.scalar literal)
  | array {ident : Nat} {items : List Value} (h : ∀ v ∈ items, Fits U frames v) :
      Fits U frames (.array ident items)
  | native (native : Native) : Fits U frames (.native native)
  | routine {closure : Closure} (h : closure.Fits U frames) : Fits U frames (.routine closure)
  | classValue {cls : ClassValue} (h : cls.Fits U frames) : Fits U frames (.classValue cls)
  | object {object : Object} (h : object.cls.Fits U frames) : Fits U frames (.object object)

section Mono

lemma Closure.Fits.mono {closure : Closure} (h : closure.Fits U frames) (hle : frames.Le next) :
    closure.Fits U next := by
  obtain ⟨c, hc, hbody, hmirror, hconstructor⟩ := h
  exact ⟨c, hc, hbody, hmirror.mono hle, hconstructor⟩

lemma Closure.FitsMethod.mono {closure : Closure} (h : closure.FitsMethod U frames)
    (hle : frames.Le next) : closure.FitsMethod U next := by
  obtain ⟨c, hc, hbody, hmirror⟩ := h
  exact ⟨c, hc, hbody, hmirror.mono hle⟩

lemma Layer.Fits.mono {l : Layer} (h : l.Fits U frames) (hle : frames.Le next) : l.Fits U next where
  methods name closure hfind := (h.methods name closure hfind).mono hle
  statics name closure hfind := (h.statics name closure hfind).mono hle
  getters name closure hfind :=
    ⟨(h.getters name closure hfind).1.mono hle, (h.getters name closure hfind).2⟩
  setters name closure hfind :=
    ⟨(h.setters name closure hfind).1.mono hle, (h.setters name closure hfind).2⟩

lemma ClassValue.Fits.mono {cls : ClassValue} (h : cls.Fits U frames) (hle : frames.Le next) :
    cls.Fits U next := fun l hl => (h l hl).mono hle

lemma Value.Fits.mono {v : Value} (h : v.Fits U frames) (hle : frames.Le next) :
    v.Fits U next := by
  induction h with
  | scalar literal => exact .scalar literal
  | array _ ih => exact .array ih
  | native n => exact .native n
  | routine h => exact .routine (h.mono hle)
  | classValue h => exact .classValue (h.mono hle)
  | object h => exact .object (h.mono hle)

end Mono

/-! ## Sound machines -/

/-- The receiver is an object and the superclass is a class. -/
structure Value.Suits (name : String) (v : Value) : Prop where
  receiver : name = thisName → ∃ object, v = .object object
  superclass : name = superName → ∃ cls, v = .classValue cls

lemma Token.Declarable.suits {name : Token} (h : name.Declarable) (v : Value) :
    v.Suits name.lexeme where
  receiver heq := absurd heq h.1
  superclass heq := absurd heq h.2

/-- The bindings of a table fit. -/
def Table.Fits (U : List Use) (frames : Frames Value) (t : Table Value) : Prop :=
  ∀ name v, t.find? name = some v → v.Fits U frames ∧ v.Suits name

/-- Everything that is bound in the machine fits. -/
structure Machine.Sound (U : List Use) (m : Machine) : Prop where
  global : 0 < m.frames.size
  frames : ∀ address, (m.frames.frame address).Fits U m.frames
  fields : ∀ ident name v, (m.fieldsOf ident).find? name = some v → v.Fits U m.frames

lemma Table.Fits.mono {t : Table Value} (h : t.Fits U frames) (hle : frames.Le next) :
    t.Fits U next := fun name v hfind => ⟨(h name v hfind).1.mono hle, (h name v hfind).2⟩

lemma Table.Fits.insert {t : Table Value} {name : String} {v : Value} (h : t.Fits U frames)
    (hv : v.Fits U frames) (hsuits : v.Suits name) : (t.insert name v).Fits U frames := by
  intro key w hfind
  rw [Table.find?_insert] at hfind
  split at hfind
  · next heq =>
      cases hfind
      exact heq ▸ ⟨hv, hsuits⟩
  · exact h key w hfind

lemma Table.fits_empty : (Table.empty : Table Value).Fits U frames := by
  intro name v hfind
  cases hfind

lemma Table.fits_singleton {name : String} {v : Value} (hv : v.Fits U frames)
    (hsuits : v.Suits name) : (Table.singleton name v).Fits U frames :=
  Table.Fits.insert Table.fits_empty hv hsuits

namespace Machine.Sound

variable {m m' : Machine}

/-- Only frames and fields matter. -/
lemma congr (h : m.Sound U) (hframes : m'.frames = m.frames) (hfields : m'.fields = m.fields) :
    m'.Sound U where
  global := hframes ▸ h.global
  frames := hframes ▸ h.frames
  fields := by
    unfold Machine.fieldsOf
    rw [hframes, hfields]
    exact h.fields

lemma newFrame (h : m.Sound U) {bindings : Table Value} (hnew : bindings.Fits U m.frames) :
    Machine.Sound U { m with frames := m.frames.push bindings } where
  global := by simp
  frames address := by
    dsimp only
    rw [Frames.frame_push]
    split
    · exact hnew.mono (Frames.Le.push _ _)
    · exact (h.frames address).mono (Frames.Le.push _ _)
  fields ident name v hfind := (h.fields ident name v hfind).mono (Frames.Le.push _ _)

/-- A name is bound to a value that fits once it is bound: a routine may be in its own environment. -/
lemma define (h : m.Sound U) {name : String} {v : Value} {target : Address}
    (hv : v.Fits U (m.frames.define target name v)) (hsuits : v.Suits name) :
    Machine.Sound U { m with frames := m.frames.define target name v } where
  global := by simpa using h.global
  frames address := by
    dsimp only
    rw [Frames.frame_define]
    have hle := Frames.Le.define m.frames target name v
    split
    · exact ((h.frames address).mono hle).insert hv hsuits
    · exact (h.frames address).mono hle
  fields ident key w hfind :=
    (h.fields ident key w hfind).mono (Frames.Le.define m.frames target name v)

lemma newObject (h : m.Sound U) :
    Machine.Sound U { m with fields := m.fields.push Table.empty } where
  global := h.global
  frames := h.frames
  fields ident name v hfind := by
    unfold Machine.fieldsOf at hfind
    rw [Array.getElem?_push] at hfind
    split at hfind
    · cases hfind
    · exact h.fields ident name v hfind

lemma putField (h : m.Sound U) {v : Value} (hv : v.Fits U m.frames) (target : Nat)
    (name : String) :
    Machine.Sound U { m with fields := m.fields.modify target (·.insert name v) } where
  global := h.global
  frames := h.frames
  fields ident key w hfind := by
    unfold Machine.fieldsOf at hfind
    rw [Array.getElem?_modify] at hfind
    split at hfind
    · next heq =>
        subst heq
        cases hfields : m.fields[target]? with
        | none => simp [hfields] at hfind
        | some table =>
            simp only [hfields, Option.map_some, Option.getD_some, Table.find?_insert] at hfind
            split at hfind
            · cases hfind
              exact hv
            · exact h.fields target key w (by simpa [Machine.fieldsOf, hfields] using hfind)
    · exact h.fields ident key w hfind

end Machine.Sound

end KScript

import KScript.Proofs.Eval.Watch

/-!
# Watched runs and plain runs

A watched run and the plain run of the same computation from the same machine: either the watch stops the
first, or both end alike, in a sound machine whose frames have only grown, and with a signal that is
natural.  `Tie` says so, together with what holds of the result; its rules follow the operations of `Run`.
-/

namespace KScript

open Scope

/-- What is known about a watch: at moments where scopes and frames agree it stops with one signal, if it
may stop at all.  `Natural` are the signals that a plain run can end with; where the watch lets a moment
pass at which a frame may lack a name, breaking down over that name is among them. -/
structure Comparison (U : List Use) where
  watch : Watch
  signal : Signal
  mayStop : Prop
  Natural : Signal → Prop
  failure : ∀ line cause, Natural (.failure line cause)
  exit : ∀ code, Natural (.exit code)
  exhausted : Natural .exhausted
  rounding : Natural (.crash .roundedTooLarge)
  stops : ∀ x s, x.Agrees U → watch x = some s → mayStop ∧ s = signal
  unbound : ∀ x name, x.Agrees U → x.MayLack U name → watch x = none →
    Natural (.crash (.unbound name))

variable {U : List Use} {C : Comparison U} {α β : Type} {m : Machine}

/-- The plain run ends as it should. -/
def Comparison.Ends (C : Comparison U) (m : Machine) (Q : α → Machine → Prop) :
    EStateM.Result Signal Machine α → Prop
  | .ok a next => next.Sound U ∧ m.frames.Le next.frames ∧ Q a next
  | .error s next => next.Sound U ∧ C.Natural s

/-- The watched run `x` is stopped, or it ends as the plain run `y` does. -/
def Tie (C : Comparison U) (m : Machine) (x y : Run α) (Q : α → Machine → Prop) : Prop :=
  (C.mayStop ∧ ∃ next, x m = .error C.signal next) ∨ (x m = y m ∧ C.Ends m Q (y m))

namespace Tie

variable {x y : Run α} {Q : α → Machine → Prop}

/-! ## Rules -/

lemma ok {a : α} {next : Machine} (hrun : x m = .ok a next) (hs : next.Sound U)
    (hle : m.frames.Le next.frames) (hq : Q a next) : Tie C m x x Q :=
  Or.inr ⟨rfl, by rw [hrun]; exact ⟨hs, hle, hq⟩⟩

lemma error {s : Signal} (hrun : x m = .error s m) (hs : m.Sound U) (hn : C.Natural s) :
    Tie C m x x Q :=
  Or.inr ⟨rfl, by rw [hrun]; exact ⟨hs, hn⟩⟩

lemma pure {a : α} (hs : m.Sound U) (hq : Q a m) : Tie C m (pure a) (pure a) Q :=
  ok rfl hs (Frames.Le.refl _) hq

lemma imp {R : α → Machine → Prop} (h : Tie C m x y Q)
    (himp : ∀ a next, next.Sound U → m.frames.Le next.frames → Q a next → R a next) :
    Tie C m x y R := by
  rcases h with h | ⟨heq, hends⟩
  · exact Or.inl h
  · refine Or.inr ⟨heq, ?_⟩
    cases hy : y m with
    | ok a next =>
        rw [hy] at hends
        exact ⟨hends.1, hends.2.1, himp a next hends.1 hends.2.1 hends.2.2⟩
    | error s next =>
        rw [hy] at hends
        exact hends

/-- One computation after the other. -/
lemma bind {f g : α → Run β} {R : β → Machine → Prop} (h : Tie C m x y Q)
    (hrest : ∀ a next, next.Sound U → m.frames.Le next.frames → Q a next →
      Tie C next (f a) (g a) R) : Tie C m (x >>= f) (y >>= g) R := by
  rcases h with ⟨hmay, next, hx⟩ | ⟨heq, hends⟩
  · exact Or.inl ⟨hmay, next, Run.bind_of_error hx⟩
  · unfold Tie
    cases hy : y m with
    | error s next =>
        rw [hy] at heq hends
        rw [Run.bind_of_error heq, Run.bind_of_error hy]
        exact Or.inr ⟨rfl, hends⟩
    | ok a next =>
        rw [hy] at heq hends
        rw [Run.bind_of_ok heq, Run.bind_of_ok hy]
        obtain ⟨hs, hle, hq⟩ := hends
        rcases hrest a next hs hle hq with h | ⟨heq', hends'⟩
        · exact Or.inl h
        · refine Or.inr ⟨heq', ?_⟩
          cases hg : g a next with
          | ok b last =>
              rw [hg] at hends'
              exact ⟨hends'.1, hle.trans hends'.2.1, hends'.2.2⟩
          | error s last =>
              rw [hg] at hends'
              exact hends'

/-- A result that is there already. -/
lemma pure_bind {a : α} {f g : α → Run β} {R : β → Machine → Prop} (h : Tie C m (f a) (g a) R) :
    Tie C m (Pure.pure a >>= f) (Pure.pure a >>= g) R := h

/-- Where there is nothing to watch. -/
lemma pure_bind_left {z : Run α} (h : Tie C m x z Q) :
    Tie C m (Pure.pure () >>= fun _ => x) z Q := h

/-- A look at the machine. -/
lemma get_bind {f g : Machine → Run β} {R : β → Machine → Prop} (h : Tie C m (f m) (g m) R) :
    Tie C m (get >>= f) (get >>= g) R := h

/-! ## Operations of the machine -/

lemma fail (hs : m.Sound U) (line : Nat) (cause : Cause) :
    Tie C m (Run.fail line cause) (Run.fail line cause) Q :=
  error rfl hs (C.failure line cause)

/-- A result that fits, or a failure. -/
lemma orFail (hs : m.Sound U) (line : Nat) {result : Except Cause Value}
    (hfits : ∀ v, result = .ok v → v.Fits U m.frames) :
    Tie C m (Run.orFail line result) (Run.orFail line result) fun v next => v.Fits U next.frames := by
  cases result with
  | ok v => exact pure hs (hfits v rfl)
  | error cause => exact fail hs line cause

lemma newIdent (hs : m.Sound U) : Tie C m Run.newIdent Run.newIdent fun _ _ => True :=
  ok rfl (hs.congr rfl rfl) (Frames.Le.refl _) trivial

lemma write (hs : m.Sound U) (text : String) :
    Tie C m (Run.write text) (Run.write text) fun _ _ => True :=
  ok rfl (hs.congr rfl rfl) (Frames.Le.refl _) trivial

lemma note (hs : m.Sound U) (text : Machine → String) :
    Tie C m (Run.note text) (Run.note text) fun _ _ => True := by
  have hframes : (if m.tracing then { m with notes := ("[DBG] " ++ text m) :: m.notes }
      else m).frames = m.frames := by split <;> rfl
  have hfields : (if m.tracing then { m with notes := ("[DBG] " ++ text m) :: m.notes }
      else m).fields = m.fields := by split <;> rfl
  exact ok rfl (hs.congr hframes hfields) (hframes ▸ Frames.Le.refl _) trivial

lemma pushCall (hs : m.Sound U) (call : CallRecord) :
    Tie C m (Run.pushCall call) (Run.pushCall call) fun _ _ => True :=
  ok rfl (hs.congr rfl rfl) (Frames.Le.refl _) trivial

lemma popCall (hs : m.Sound U) : Tie C m Run.popCall Run.popCall fun _ _ => True :=
  ok rfl (hs.congr rfl rfl) (Frames.Le.refl _) trivial

lemma newFrame (hs : m.Sound U) {bindings : Table Value} (h : bindings.Fits U m.frames) :
    Tie C m (Run.newFrame bindings) (Run.newFrame bindings) fun address next =>
      address < next.frames.size ∧ next.frames.frame address = bindings := by
  refine ok rfl (hs.newFrame h) (Frames.Le.push _ _) ⟨by simp, ?_⟩
  rw [Frames.frame_push, if_pos rfl]

lemma newObject (hs : m.Sound U) (cls : ClassValue) :
    Tie C m (Run.newObject cls) (Run.newObject cls) fun object _ => object.cls = cls :=
  ok rfl hs.newObject (Frames.Le.refl _) rfl

lemma putField (hs : m.Sound U) (object : Object) (name : String) {v : Value}
    (hv : v.Fits U m.frames) :
    Tie C m (Run.putField object name v) (Run.putField object name v) fun _ _ => True :=
  ok rfl (hs.putField hv object.ident name) (Frames.Le.refl _) trivial

/-- Binding a name in one frame. -/
lemma defineAt (hs : m.Sound U) {name : String} {v : Value} {address : Address}
    (hv : v.Fits U (m.frames.define address name v)) (hsuits : v.Suits name) :
    Tie C m (modify fun m => { m with frames := m.frames.define address name v })
      (modify fun m => { m with frames := m.frames.define address name v }) fun _ next =>
        next.frames = m.frames.define address name v :=
  ok rfl (hs.define hv hsuits) (Frames.Le.define _ _ _ _) rfl

end Tie

end KScript

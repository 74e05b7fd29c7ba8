import KScript.Proofs.Eval.Tie

/-!
# References under a watch

At the place of a use the depth of the name leads to a frame that binds it, unless the name is that of
the local variable whose initial value is being worked out (`Use.agrees`).  So reading, writing and
stepping a variable never leaves the chain of frames, and breaks down only where a name may be lacking.
-/

namespace KScript

open Scope

variable {U : List Use} {C : Comparison U} {m : Machine} {env : Env} {c : Context}

/-! ## Moments -/

namespace Use

variable {u : Use} {d : Nat}

lemma depth_scopes (h : u.depth = some d) : u.context.scopes.depth u.name.lexeme = some d := by
  unfold depth at h
  split at h
  · unfold Reference.resolveReceiver at h
    split at h
    · cases h
    · exact h
  · exact h

/-- Where the context is legal, the frame that the depth leads to binds the name or the name is
pending. -/
lemma binds (hlegal : u.context.Legal) (hmirror : m.frames.Mirror env u.context.scopes)
    (h : u.depth = some d) : ∃ address, env[d]? = some address
      ∧ ((m.frames.frame address).contains u.name.lexeme = true
        ∨ u.context.scopes.isPending u.name.lexeme = true ∧ u.name.Declarable) := by
  obtain ⟨scope, hscope, hready⟩ := hlegal.ready_of_depth (depth_scopes h)
  obtain ⟨address, haddress, -, hnames⟩ := hmirror.binds d scope hscope
  refine ⟨address, haddress, ?_⟩
  rcases hready with hready | ⟨-, hpending, hdeclarable⟩
  · exact Or.inl (hnames _ hready)
  · exact Or.inr ⟨hpending, hdeclarable⟩

/-- Scopes and frames agree at the moment of a use whose name is not pending, or may be. -/
lemma agrees (hu : u ∈ U) (hlegal : u.context.Legal)
    (hmirror : m.frames.Mirror env u.context.scopes)
    (hpending : u.context.scopes.isPending u.name.lexeme = true → u.name.Declarable →
      u.InOwnInitializer) :
    Moment.Agrees U ⟨u.site, ⟨u.name, u.depth⟩, env, m⟩ := by
  intro d hd
  obtain ⟨address, haddress, hbinds⟩ := binds hlegal hmirror hd
  refine ⟨u, hu, ⟨rfl, rfl, rfl⟩, hmirror, address, haddress, ?_⟩
  rcases hbinds with hbinds | ⟨hp, hdeclarable⟩
  · exact Or.inl hbinds
  · exact Or.inr (hpending hp hdeclarable)

end Use

lemma Scope.Context.Settled.not_isPending (h : c.Settled) (name : String) :
    c.scopes.isPending name = false := by
  have hready := h.ready
  unfold Scopes.isPending
  cases hscopes : c.scopes with
  | nil => rfl
  | cons inner outer =>
      rw [hscopes] at hready
      exact decide_eq_false (hready inner List.mem_cons_self name)

lemma Scope.Context.not_isPending_of_checkRead {name : Token} (h : c.checkRead name = []) :
    c.scopes.isPending name.lexeme = false := by
  unfold Context.checkRead complainWhen at h
  split at h
  · cases h
  · next hp => exact Bool.eq_false_iff.mpr hp

/-- At a moment at which scopes and frames agree the watched run goes on, or is stopped. -/
lemma Tie.watch {α : Type} {x y : Run α} {Q : α → Machine → Prop} {site : Site}
    {ref : Reference Depth} (hagrees : Moment.Agrees U ⟨site, ref, env, m⟩)
    (h : C.watch ⟨site, ref, env, m⟩ = none → Tie C m x y Q) :
    Tie C m (C.watch.before env (some (site, ref)) >>= fun _ => x) y Q := by
  cases hwatch : C.watch ⟨site, ref, env, m⟩ with
  | none =>
      have hrun : (C.watch.before env (some (site, ref)) >>= fun _ => x) m = x m := by
        rw [Watch.before, bind_assoc, Run.get_bind_apply, hwatch]
        rfl
      unfold Tie
      rw [hrun]
      exact h hwatch
  | some s =>
      obtain ⟨hmay, rfl⟩ := C.stops _ _ hagrees hwatch
      refine Or.inl ⟨hmay, m, ?_⟩
      rw [Watch.before, bind_assoc, Run.get_bind_apply, hwatch]
      rfl

/-! ## Variables -/

namespace Reference

variable {ref : Reference Depth}

/-- The depth of a reference leads to a frame, and that frame binds its name or may be found lacking. -/
def Leads (C : Comparison U) (m : Machine) (env : Env) (ref : Reference Depth) : Prop :=
  ∀ d, ref.bound = some d → ∃ address, env[d]? = some address
    ∧ ((m.frames.frame address).contains ref.name.lexeme = true
      ∨ C.Natural (.crash (.unbound ref.name.lexeme)))

lemma read_tie (hs : m.Sound U) (h : ref.Leads C m env) :
    Tie C m (ref.read env) (ref.read env) fun v next => v.Fits U next.frames := by
  refine Tie.get_bind ?_
  obtain ⟨name, bound⟩ := ref
  cases bound with
  | none =>
      dsimp only
      cases hfind : (m.frames.frame Machine.globalAddress).find? name.lexeme with
      | some v => exact Tie.pure hs (hs.frames _ _ v hfind).1
      | none => exact Tie.fail hs _ _
  | some d =>
      obtain ⟨address, haddress, hbinds⟩ := h d rfl
      dsimp only [Frames.getAt]
      rw [haddress]
      dsimp only
      cases hfind : (m.frames.frame address).find? name.lexeme with
      | some v => exact Tie.pure hs (hs.frames _ _ v hfind).1
      | none =>
          rcases hbinds with hcontains | hnatural
          · simp [Table.contains, hfind] at hcontains
          · exact Tie.error rfl hs hnatural

lemma write_tie (hs : m.Sound U) (hname : ref.name.Declarable)
    (h : ∀ d, ref.bound = some d → ∃ address, env[d]? = some address) {v : Value}
    (hv : v.Fits U m.frames) : Tie C m (ref.write env v) (ref.write env v) fun _ _ => True := by
  obtain ⟨name, bound⟩ := ref
  unfold write
  cases bound with
  | none =>
      refine Tie.get_bind ?_
      dsimp only
      split
      · exact (Tie.defineAt hs (hv.mono (Frames.Le.define _ _ _ _)) (hname.suits v)).imp
          fun _ _ _ _ _ => trivial
      · exact Tie.fail hs _ _
  | some d =>
      obtain ⟨address, haddress⟩ := h d rfl
      dsimp only
      rw [haddress]
      exact (Tie.defineAt hs (hv.mono (Frames.Le.define _ _ _ _)) (hname.suits v)).imp
        fun _ _ _ _ _ => trivial

lemma step_tie (hs : m.Sound U) (hname : ref.name.Declarable) (h : ref.Leads C m env)
    (direction : Direction) (use : StepUse) :
    Tie C m (ref.step direction use env) (ref.step direction use env) fun v next =>
      v.Fits U next.frames := by
  refine Tie.bind (read_tie hs h) ?_
  intro v next hs' hle hv
  split
  · refine Tie.bind (write_tie hs' hname ?_ (.scalar _)) fun _ _ hs'' _ _ => Tie.pure hs'' (.scalar _)
    intro d hd
    obtain ⟨address, haddress, -⟩ := h d hd
    exact ⟨address, haddress⟩
  · exact Tie.fail hs' _ _

end Reference

/-! ## Declarations -/

namespace Frames.Mirror

variable {frames : Frames Value}

/-- Binding a name in the innermost frame makes it ready. -/
lemma bind (h : frames.Mirror env c.scopes) {address : Address} {outer : Env}
    (henv : env = address :: outer) (name : Token) (v : Value) :
    (frames.define address name.lexeme v).Mirror env (c.bind name).scopes := by
  have hle := Frames.Le.define frames address name.lexeme v
  have hscopes : (c.bind name).scopes = (c.scopes.declare name.lexeme).define name.lexeme := rfl
  rw [hscopes]
  cases hc : c.scopes with
  | nil =>
      rw [hc] at h
      exact h.mono hle
  | cons inner rest =>
      rw [hc] at h
      obtain ⟨a, o, heq, hlt, hnames⟩ := h.cons
      subst henv
      cases heq
      refine Frames.Mirror.push (h.tail.mono hle) (by simpa using hlt) ?_
      intro key hkey
      rw [Frames.frame_define, if_pos ⟨rfl, hlt⟩, Table.contains_insert]
      by_cases heq : name.lexeme = key
      · simp [heq]
      · rw [Table.find?_insert, if_neg heq] at hkey
        have hinner : inner.find? key = some true := by
          split at hkey
          · exact hkey
          · rwa [Table.find?_insert, if_neg heq] at hkey
        simp [hnames key hinner]

end Frames.Mirror

lemma Frames.Mirror.ne_nil {frames : Frames Value} {scopes : Scopes}
    (h : frames.Mirror env scopes) : ∃ address outer, env = address :: outer := by
  cases env with
  | nil => cases h.length
  | cons address outer => exact ⟨address, outer, rfl⟩

/-- A declared name is ready afterwards.  Its value has to fit only then: a routine may call itself. -/
lemma Tie.define (hs : m.Sound U) (hmirror : m.frames.Mirror env c.scopes) {name : Token}
    (hname : name.Declarable) {v : Value}
    (hv : ∀ frames : Frames Value, m.frames.Le frames → frames.Mirror env (c.bind name).scopes →
      v.Fits U frames) :
    Tie C m (Run.define env name.lexeme v) (Run.define env name.lexeme v) fun _ next =>
      next.frames.Mirror env (c.bind name).scopes := by
  obtain ⟨address, outer, rfl⟩ := hmirror.ne_nil
  have hbind := hmirror.bind rfl name v
  have hfits := hv _ (Frames.Le.define _ _ _ _) hbind
  refine (Tie.defineAt hs hfits (hname.suits v)).imp ?_
  intro _ next _ _ hnext
  rw [hnext]
  exact hbind

end KScript

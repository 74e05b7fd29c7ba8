import KScript.Eval
import KScript.Proofs.Alike.Runs

/-!
# Routines that are alike

An evaluator respects a likeness if it does alike on trees that are alike, wherever the marks of the frames
in sight are those of the scopes around the trees.  Then it also calls routines alike: the frame that a call
opens has the mark that was chosen for the parameters, and the frame of a receiver has none.
-/

namespace KScript

open Scope

variable {L : Pairing} {W : List Bool} {m m' : Machine} {env : Env} {marks : List Bool}

/-! ## References -/

/-- Looking a name up in the frame to which a depth leads, in machines that the runs have seen. -/
lemma Alike.getAt {V : List Bool} {n n' : Machine} (hn : n.Like L V n') (hvw : V <+: W)
    (henv : Env.Like V env marks) (hm : m.Like L W m') (depth : Nat)
    {name name' : String} (hname : name' = L.perm (marks.getD depth false) name) :
    Alike L W m m' (Run.orCrash (n.frames.getAt env depth name))
      (Run.orCrash (n'.frames.getAt env depth name')) fun W v v' => v.Like L W v' := by
  subst hname
  unfold Frames.getAt
  cases haddress : env[depth]? with
  | none => exact Alike.error rfl rfl hm (.crash _)
  | some address =>
      have hfind := (hn.frames address _ (henv depth address haddress)).find? name
      dsimp only
      generalize (n.frames.frame address).find? name = found at hfind ⊢
      generalize (n'.frames.frame address).find? (L.perm (marks.getD depth false) name) = found'
        at hfind ⊢
      cases hfind with
      | none => exact Alike.error rfl rfl hm (.unbound _ _)
      | some hv => exact Alike.pure hm (hv.mono hvw)

namespace Reference

variable {ref ref' : Reference Depth}

lemma Like.bound_eq (h : ref.Like L marks ref') : ref'.bound = ref.bound := h.1

lemma Like.lexeme (h : ref.Like L marks ref') :
    ref'.name.lexeme = L.perm (Likeness.mark marks ref.bound) ref.name.lexeme := L.same_lexeme h.2

lemma Like.line (h : ref.Like L marks ref') : L.SameLine ref.name.line ref'.name.line :=
  ⟨_, _, h.2, rfl, rfl⟩

lemma read_alike (hm : m.Like L W m') (henv : Env.Like W env marks) (h : ref.Like L marks ref') :
    Alike L W m m' (ref.read env) (ref'.read env) fun W v v' => v.Like L W v' := by
  have hline := h.line
  have hlexeme := h.lexeme
  obtain ⟨name, bound⟩ := ref
  obtain ⟨name', bound'⟩ := ref'
  obtain rfl : bound' = bound := h.bound_eq
  refine Alike.get_bind ?_
  cases bound' with
  | some depth => exact Alike.getAt hm List.prefix_rfl henv hm depth hlexeme
  | none =>
      obtain hlexeme : name'.lexeme = name.lexeme := hlexeme
      have hfind := (hm.frames _ _ hm.global).find? name.lexeme
      rw [L.perm_false] at hfind
      dsimp only
      rw [hlexeme]
      generalize (m.frames.frame Machine.globalAddress).find? name.lexeme = found at hfind ⊢
      generalize (m'.frames.frame Machine.globalAddress).find? name.lexeme = found' at hfind ⊢
      cases hfind with
      | none => exact Alike.fail hm hline _
      | some hv => exact Alike.pure hm hv

lemma write_alike (hm : m.Like L W m') (henv : Env.Like W env marks) (h : ref.Like L marks ref')
    {v v' : Value} (hv : v.Like L W v') :
    Alike L W m m' (ref.write env v) (ref'.write env v') fun _ _ _ => True := by
  have hline := h.line
  have hlexeme := h.lexeme
  obtain ⟨name, bound⟩ := ref
  obtain ⟨name', bound'⟩ := ref'
  obtain rfl : bound' = bound := h.bound_eq
  unfold write
  cases bound' with
  | some depth =>
      dsimp only
      cases haddress : env[depth]? with
      | none => exact Alike.error rfl rfl hm (.crash _)
      | some address => exact Alike.defineAt hm (henv depth address haddress) hlexeme hv
  | none =>
      obtain hlexeme : name'.lexeme = name.lexeme := hlexeme
      have hcontains := (hm.frames _ _ hm.global).contains name.lexeme
      rw [L.perm_false] at hcontains
      refine Alike.get_bind ?_
      dsimp only
      rw [hlexeme, hcontains]
      split
      · exact Alike.defineAt hm hm.global rfl hv
      · exact Alike.fail hm hline _

lemma step_alike (hm : m.Like L W m') (henv : Env.Like W env marks) (h : ref.Like L marks ref')
    (direction : Direction) (use : StepUse) :
    Alike L W m m' (ref.step direction use env) (ref'.step direction use env)
      fun W v v' => v.Like L W v' := by
  refine Alike.bind (read_alike hm henv h) ?_
  intro W₁ m₁ m₁' v v' hw₁ hm₁ _ hv
  cases v with
  | scalar literal =>
      obtain rfl : v' = .scalar literal := hv
      cases literal with
      | number x =>
          refine Alike.bind (write_alike hm₁ (henv.mono hw₁) h rfl) ?_
          intro W₂ m₂ m₂' _ _ _ hm₂ _ _
          exact Alike.pure hm₂ rfl
      | _ => exact Alike.fail hm₁ h.line _
  | native n =>
      obtain rfl : v' = .native n := hv
      exact Alike.fail hm₁ h.line _
  | _ =>
      obtain ⟨_, rfl, -⟩ := hv
      exact Alike.fail hm₁ h.line _

end Reference

/-! ## Evaluators -/

/-- The statements end alike. -/
inductive Completion.Like (L : Likeness) (W : List Bool) : Completion → Completion → Prop where
  | normal : Like L W .normal .normal
  | broke : Like L W .broke .broke
  | continued : Like L W .continued .continued
  | returned {v v' : Value} (h : v.Like L W v') : Like L W (.returned v) (.returned v')

/-- The evaluator does alike on trees that are alike. -/
structure Interp.Respects (L : Pairing) (i : Interp) : Prop where
  eval : ∀ {W : List Bool} {m m' : Machine} {env : Env} {marks : List Bool} {e e' : Expr Depth},
    m.Like L W m' → Env.Like W env marks → e.Like L marks e' →
    Alike L W m m' (i.eval env e) (i.eval env e') fun W v v' => v.Like L W v'
  exec : ∀ {W : List Bool} {m m' : Machine} {env : Env} {marks : List Bool} {s s' : Stmt Depth},
    m.Like L W m' → Env.Like W env marks → s.Like L marks s' →
    Alike L W m m' (i.exec env s) (i.exec env s') fun W c c' => c.Like L W c'

namespace Interp.Respects

variable {i : Interp}

lemma evalAll (h : i.Respects L) : ∀ {es es' : List (Expr Depth)} {W : List Bool} {m m' : Machine},
    m.Like L W m' → Env.Like W env marks → Expr.LikeAll L marks es es' →
    Alike L W m m' (i.evalAll env es) (i.evalAll env es') fun W vs vs' => Value.LikeAll L W vs vs' := by
  intro es
  induction es with
  | nil =>
      intro es' W m m' hm _ hes
      obtain rfl : es' = [] := hes
      exact Alike.pure hm rfl
  | cons e rest ih =>
      intro es' W m m' hm henv hes
      obtain ⟨e', rest', rfl, he, hrest⟩ := hes
      refine Alike.bind (h.eval hm henv he) ?_
      intro W₁ m₁ m₁' v v' hw₁ hm₁ _ hv
      refine Alike.bind (ih hm₁ (henv.mono hw₁) hrest) ?_
      intro W₂ m₂ m₂' vs vs' hw₂ hm₂ _ hvs
      exact Alike.pure hm₂ ⟨v', vs', rfl, hv.mono hw₂, hvs⟩

lemma test (h : i.Respects L) (hm : m.Like L W m') (henv : Env.Like W env marks)
    {e e' : Expr Depth} (he : e.Like L marks e') :
    Alike L W m m' (i.test env e) (i.test env e') fun _ holds holds' => holds' = holds := by
  refine Alike.bind (h.eval hm henv he) ?_
  intro W₁ m₁ m₁' v v' _ hm₁ _ hv
  exact Alike.pure hm₁ hv.isTruthy

lemma evalOption (h : i.Respects L) (hm : m.Like L W m') (henv : Env.Like W env marks)
    {e e' : Option (Expr Depth)} (he : Expr.LikeOption L marks e e') :
    Alike L W m m' (i.evalOption env e) (i.evalOption env e') fun W v v' => v.Like L W v' := by
  cases e with
  | none =>
      obtain rfl : e' = none := he
      exact Alike.pure hm rfl
  | some e =>
      obtain ⟨x, rfl, hx⟩ := he
      exact h.eval hm henv hx

lemma execAll (h : i.Respects L) : ∀ {ss ss' : List (Stmt Depth)} {W : List Bool} {m m' : Machine},
    m.Like L W m' → Env.Like W env marks → Stmt.LikeAll L marks ss ss' →
    Alike L W m m' (i.execAll env ss) (i.execAll env ss') fun W c c' => c.Like L W c' := by
  intro ss
  induction ss with
  | nil =>
      intro ss' W m m' hm _ hss
      obtain rfl : ss' = [] := hss
      exact Alike.pure hm .normal
  | cons s rest ih =>
      intro ss' W m m' hm henv hss
      obtain ⟨s', rest', rfl, hs, hrest⟩ := hss
      refine Alike.bind (h.exec hm henv hs) ?_
      intro W₁ m₁ m₁' c c' hw₁ hm₁ _ hc
      cases hc with
      | normal => exact ih hm₁ (henv.mono hw₁) hrest
      | broke => exact Alike.pure hm₁ .broke
      | continued => exact Alike.pure hm₁ .continued
      | returned hv => exact Alike.pure hm₁ (.returned hv)

end Interp.Respects

/-- A loop, given what its parts do in all machines from its start on. -/
lemma Alike.loop {test test' : Run Bool} {body body' : Run Completion} {after after' : Run Unit}
    (htest : ∀ {W₁ : List Bool} {m₁ m₁' : Machine}, W <+: W₁ → m₁.Like L W₁ m₁' →
      Alike L W₁ m₁ m₁' test test' fun _ holds holds' => holds' = holds)
    (hbody : ∀ {W₁ : List Bool} {m₁ m₁' : Machine}, W <+: W₁ → m₁.Like L W₁ m₁' →
      Alike L W₁ m₁ m₁' body body' fun W c c' => c.Like L W c')
    (hafter : ∀ {W₁ : List Bool} {m₁ m₁' : Machine}, W <+: W₁ → m₁.Like L W₁ m₁' →
      Alike L W₁ m₁ m₁' after after' fun _ _ _ => True) (fuel : Nat) :
    ∀ {W₁ : List Bool} {m₁ m₁' : Machine}, W <+: W₁ → m₁.Like L W₁ m₁' →
      Alike L W₁ m₁ m₁' (Run.loop test body after fuel) (Run.loop test' body' after' fuel)
        fun W c c' => c.Like L W c' := by
  induction fuel with
  | zero => exact fun _ hm => Alike.error rfl rfl hm .exhausted
  | succ fuel ih =>
      intro W₁ m₁ m₁' hw₁ hm₁
      refine Alike.bind (htest hw₁ hm₁) ?_
      intro W₂ m₂ m₂' holds holds' hw₂ hm₂ _ hholds
      subst hholds
      cases holds' with
      | false => exact Alike.pure hm₂ .normal
      | true =>
          have hw := hw₁.trans hw₂
          refine Alike.bind (hbody hw hm₂) ?_
          intro W₃ m₃ m₃' c c' hw₃ hm₃ _ hc
          have hagain : Alike L W₃ m₃ m₃' (after >>= fun _ => Run.loop test body after fuel)
              (after' >>= fun _ => Run.loop test' body' after' fuel) fun W c c' => c.Like L W c' := by
            refine Alike.bind (hafter (hw.trans hw₃) hm₃) ?_
            intro W₄ m₄ m₄' _ _ hw₄ hm₄ _ _
            exact ih ((hw.trans hw₃).trans hw₄) hm₄
          cases hc with
          | normal => exact hagain
          | continued => exact hagain
          | broke => exact Alike.pure hm₃ .normal
          | returned hv => exact Alike.pure hm₃ (.returned hv)

/-! ## Calls -/

/-- The frame of a receiver is not marked. -/
lemma Closure.bind_alike (hm : m.Like L W m') {c c' : Closure} (hc : c.Like L W [false] c')
    {o o' : Object} (ho : o.Like L W o') :
    Alike L W m m' (c.bind o) (c'.bind o') fun W c c' => c.Like L W [] c' := by
  have hbindings : (Table.singleton thisName (Value.object o)).Like L false (Value.Like L W)
      (Table.singleton thisName (.object o')) := Table.Like.singleton rfl ⟨o', rfl, ho⟩
  refine Alike.bind (Alike.newFrame hm hbindings) ?_
  rintro W₁ m₁ m₁' address address' hw₁ hm₁ _ ⟨rfl, hmark⟩
  refine Alike.bind (Alike.newIdent hm₁) ?_
  intro W₂ m₂ m₂' ident ident' hw₂ hm₂ _ hident
  obtain ⟨inner, henv, hdecl⟩ := hc.decl
  refine Alike.pure hm₂ ⟨hident, ?_, hc.isConstructor, false :: inner, ?_, hdecl⟩
  · show address' :: c'.env = address' :: c.env
    rw [hc.env]
  · exact ((henv.mono hw₁).cons hmark).mono hw₂

namespace Interp.Respects

variable {i : Interp}

lemma invoke (h : i.Respects L) (hm : m.Like L W m') {c c' : Closure} (hc : c.Like L W [] c')
    {args args' : List Value} (hargs : Value.LikeAll L W args args') :
    Alike L W m m' (i.invoke c args) (i.invoke c' args') fun W v v' => v.Like L W v' := by
  obtain ⟨outer, henv, -, b, hparams, hbody⟩ := hc.decl
  refine Alike.bind (Alike.newFrame hm (Table.Like.ofList_zip hparams (Value.likeAll_iff.mp hargs))) ?_
  rintro W₁ m₁ m₁' address address' hw₁ hm₁ _ ⟨rfl, hmark⟩
  rw [hc.env, hc.isConstructor]
  refine Alike.bind (h.execAll hm₁ ((henv.mono hw₁).cons hmark) hbody) ?_
  intro W₂ m₂ m₂' completion completion' hw₂ hm₂ _ hcompletion
  split
  · have henv₂ := henv.mono (hw₁.trans hw₂)
    exact Alike.get_bind (Alike.getAt hm₂ List.prefix_rfl henv₂ hm₂ 0 (L.perm_this _).symm)
  · cases hcompletion with
    | returned hv => exact Alike.pure hm₂ hv
    | _ => exact Alike.pure hm₂ rfl

lemma invokeOn (h : i.Respects L) (hm : m.Like L W m') {c c' : Closure} (hc : c.Like L W [false] c')
    {o o' : Object} (ho : o.Like L W o') {args args' : List Value}
    (hargs : Value.LikeAll L W args args') :
    Alike L W m m' (i.invokeOn c o args) (i.invokeOn c' o' args') fun W v v' => v.Like L W v' := by
  refine Alike.bind (Closure.bind_alike hm hc ho) ?_
  intro W₁ m₁ m₁' bound bound' hw₁ hm₁ _ hbound
  exact h.invoke hm₁ hbound (hargs.mono hw₁)

lemma construct (h : i.Respects L) (hm : m.Like L W m') {cls cls' : ClassValue}
    (hcls : cls.Like L W cls') {args args' : List Value} (hargs : Value.LikeAll L W args args') :
    Alike L W m m' (i.construct cls args) (i.construct cls' args') fun W v v' => v.Like L W v' := by
  refine Alike.bind (Alike.newObject hm hcls) ?_
  intro W₁ m₁ m₁' o o' hw₁ hm₁ _ ho
  have hfind : Option.Rel (Closure.Like L W [false]) cls.constructor? cls'.constructor? :=
    hcls.method? constructorName
  generalize cls.constructor? = found at hfind ⊢
  generalize cls'.constructor? = found' at hfind ⊢
  cases hfind with
  | none => exact Alike.pure hm₁ ⟨o', rfl, ho⟩
  | some hc =>
      refine Alike.bind (h.invokeOn hm₁ (hc.mono hw₁) ho (hargs.mono hw₁)) ?_
      intro W₂ m₂ m₂' _ _ hw₂ hm₂ _ _
      exact Alike.pure hm₂ ⟨o', rfl, ho.mono hw₂⟩

end Interp.Respects

end KScript

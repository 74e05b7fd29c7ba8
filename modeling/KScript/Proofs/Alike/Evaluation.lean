import KScript.Proofs.Alike.Objects

/-!
# Evaluation respects every likeness

What a form of expression or statement does with its parts is alike on trees that are alike, so every level
of the evaluator respects the likeness, and programs that are alike run alike from machines that are.
-/

namespace KScript

open Scope

variable {L : Pairing} {W : List Bool} {m m' : Machine} {env : Env} {marks : List Bool} {i : Interp}

namespace Interp.Respects

/-- **What a form of expression does with its parts respects the likeness.** -/
theorem evalStep (h : i.Respects L) (hm : m.Like L W m') (henv : Env.Like W env marks)
    {e e' : Expr Depth} (he : e.Like L marks e') :
    Alike L W m m' (i.evalStep env e) (i.evalStep env e') fun W v v' => v.Like L W v' := by
  cases e with
  | literal value =>
      obtain rfl : e' = .literal value := he
      exact Alike.pure hm rfl
  | array items =>
      obtain ⟨items', rfl, hitems⟩ := he
      refine Alike.bind (h.evalAll hm henv hitems) ?_
      intro W₁ m₁ m₁' vs vs' _ hm₁ _ hvs
      refine Alike.bind (Alike.newIdent hm₁) ?_
      rintro W₂ m₂ m₂' ident ident' hw₂ hm₂ _ rfl
      exact Alike.pure hm₂ ⟨vs', rfl, hvs.mono hw₂⟩
  | grouping inner =>
      obtain ⟨inner', rfl, hinner⟩ := he
      exact h.eval hm henv hinner
  | unary op operand =>
      obtain ⟨op', operand', rfl, hop, hoperand⟩ := he
      refine Alike.bind (h.eval hm henv hoperand) ?_
      intro W₁ m₁ m₁' v v' _ hm₁ _ hv
      rw [Operator.unary_congr (L.same_kind hop) hv.outline]
      exact Alike.orFail hm₁ (L.sameLine hop) fun _ hresult => Operator.unary_scalar hresult
  | binary left op right =>
      obtain ⟨left', op', right', rfl, hleft, hop, hright⟩ := he
      refine Alike.bind (h.eval hm henv hleft) ?_
      intro W₁ m₁ m₁' a a' hw₁ hm₁ _ ha
      refine Alike.bind (h.eval hm₁ (henv.mono hw₁) hright) ?_
      intro W₂ m₂ m₂' b b' _ hm₂ _ hb
      rw [Operator.binary_congr (L.same_kind hop) (L.same_lexeme hop) ha.outline hb.outline]
      exact Alike.orFail hm₂ (L.sameLine hop) fun _ hresult => Operator.binary_scalar hresult
  | logical left op right =>
      obtain ⟨left', op', right', rfl, hleft, hop, hright⟩ := he
      refine Alike.bind (h.eval hm henv hleft) ?_
      intro W₁ m₁ m₁' a a' hw₁ hm₁ _ ha
      have hsettles : Interp.settles op' a' = Interp.settles op a := by
        simp only [Interp.settles, L.same_kind hop, ha.isTruthy]
      rw [hsettles]
      split
      · exact Alike.pure hm₁ ha
      · exact h.eval hm₁ (henv.mono hw₁) hright
  | conditional condition yes no =>
      obtain ⟨condition', yes', no', rfl, hcondition, hyes, hno⟩ := he
      refine Alike.bind (h.test hm henv hcondition) ?_
      rintro W₁ m₁ m₁' holds holds' hw₁ hm₁ _ rfl
      split
      · exact h.eval hm₁ (henv.mono hw₁) hyes
      · exact h.eval hm₁ (henv.mono hw₁) hno
  | «variable» ref =>
      obtain ⟨ref', rfl, href⟩ := he
      exact Reference.read_alike hm henv href
  | assign ref value =>
      obtain ⟨ref', value', rfl, href, hvalue⟩ := he
      refine Alike.bind (h.eval hm henv hvalue) ?_
      intro W₁ m₁ m₁' v v' hw₁ hm₁ _ hv
      refine Alike.bind (Reference.write_alike hm₁ (henv.mono hw₁) href hv) ?_
      intro W₂ m₂ m₂' _ _ hw₂ hm₂ _ _
      exact Alike.pure hm₂ (hv.mono hw₂)
  | step direction ref =>
      obtain ⟨ref', rfl, href⟩ := he
      exact Reference.step_alike hm henv href direction .expression
  | call callee paren args =>
      obtain ⟨callee', paren', args', rfl, hcallee, hparen, hargs⟩ := he
      refine Alike.bind (h.eval hm henv hcallee) ?_
      intro W₁ m₁ m₁' target target' hw₁ hm₁ _ htarget
      refine Alike.bind (h.evalAll hm₁ (henv.mono hw₁) hargs) ?_
      intro W₂ m₂ m₂' vs vs' hw₂ hm₂ _ hvs
      exact h.call hm₂ (htarget.mono hw₂) hvs (L.sameLine hparen)
  | get object name inside =>
      obtain ⟨object', name', rfl, hobject, hname⟩ := he
      refine Alike.bind (h.eval hm henv hobject) ?_
      intro W₁ m₁ m₁' target target' _ hm₁ _ htarget
      exact h.getProperty hm₁ htarget hname inside
  | set object name value inside =>
      obtain ⟨object', name', value', rfl, hobject, hname, hvalue⟩ := he
      refine Alike.bind (h.eval hm henv hobject) ?_
      intro W₁ m₁ m₁' target target' hw₁ hm₁ _ htarget
      cases target with
      | object o =>
          obtain ⟨o', rfl, ho⟩ := htarget
          refine Alike.bind (h.eval hm₁ (henv.mono hw₁) hvalue) ?_
          intro W₂ m₂ m₂' v v' hw₂ hm₂ _ hv
          refine Alike.bind (h.writeProperty hm₂ (ho.mono hw₂) hname hv inside) ?_
          intro W₃ m₃ m₃' _ _ hw₃ hm₃ _ _
          exact Alike.pure hm₃ (hv.mono hw₃)
      | scalar literal =>
          obtain rfl : target' = .scalar literal := htarget
          exact Alike.fail hm₁ (L.sameLine hname) _
      | native n =>
          obtain rfl : target' = .native n := htarget
          exact Alike.fail hm₁ (L.sameLine hname) _
      | _ =>
          obtain ⟨_, rfl, -⟩ := htarget
          exact Alike.fail hm₁ (L.sameLine hname) _
  | receiver ref =>
      obtain ⟨ref', rfl, href⟩ := he
      exact Reference.read_alike hm henv href
  | inherited ref method =>
      obtain ⟨ref', method', rfl, href, hmethod⟩ := he
      exact Reference.inherited_alike hm henv href hmethod

/-! ## Statements -/

lemma exitWith (hm : m.Like L W m') {line line' : Nat} (hline : L.SameLine line line')
    {v v' : Value} (hv : v.Like L W v') :
    Alike L W m m' (Interp.exitWith line v) (Interp.exitWith line' v') fun W c c' => c.Like L W c' := by
  cases v with
  | scalar literal =>
      obtain rfl : v' = .scalar literal := hv
      cases literal with
      | number x =>
          unfold Interp.exitWith
          dsimp only
          split
          · refine Alike.bind (Alike.note hm rfl) ?_
            intro W₁ m₁ m₁' _ _ _ hm₁ _ _
            exact Alike.error rfl rfl hm₁ (.exit _)
          · exact Alike.fail hm hline _
      | _ => exact Alike.fail hm hline _
  | native n =>
      obtain rfl : v' = .native n := hv
      exact Alike.fail hm hline _
  | _ =>
      obtain ⟨_, rfl, -⟩ := hv
      exact Alike.fail hm hline _

lemma begin (h : i.Respects L) (hm : m.Like L W m') (henv : Env.Like W env marks)
    {start start' : Option (ForStart Depth)} (hstart : ForStart.Like L marks start start') :
    Alike L W m m' (i.begin env start) (i.begin env start') fun _ _ _ => True := by
  have hrun : ∀ {s s' : Stmt Depth}, s.Like L marks s' →
      Alike L W m m' (i.exec env s >>= fun _ => pure ()) (i.exec env s' >>= fun _ => pure ())
        fun _ _ _ => True := by
    intro s s' hs
    refine Alike.bind (h.exec hm henv hs) ?_
    intro W₁ m₁ m₁' _ _ _ hm₁ _ _
    exact Alike.pure hm₁ trivial
  match start, hstart with
  | none, hstart =>
      obtain rfl : start' = none := hstart
      exact Alike.pure hm trivial
  | some (.var name value), hstart =>
      obtain ⟨name', value', rfl, hname, hvalue⟩ := hstart
      exact hrun (s := .var name value) ⟨name', value', rfl, hname, hvalue⟩
  | some (.expr e), hstart =>
      obtain ⟨e', rfl, he⟩ := hstart
      exact hrun (s := .expr e) ⟨e', rfl, he⟩

lemma advance (h : i.Respects L) (hm : m.Like L W m') (henv : Env.Like W env marks)
    {after after' : Option (Expr Depth)} (hafter : Expr.LikeOption L marks after after') :
    Alike L W m m' (i.advance env after) (i.advance env after') fun _ _ _ => True := by
  refine Alike.bind (h.evalOption hm henv hafter) ?_
  intro W₁ m₁ m₁' _ _ _ hm₁ _ _
  exact Alike.pure hm₁ trivial

/-- **What a form of statement does with its parts respects the likeness.** -/
theorem execStep (h : i.Respects L) (hm : m.Like L W m') (henv : Env.Like W env marks)
    {s s' : Stmt Depth} (hs : s.Like L marks s') :
    Alike L W m m' (i.execStep env s) (i.execStep env s') fun W c c' => c.Like L W c' := by
  cases s with
  | expr e =>
      obtain ⟨e', rfl, he⟩ := hs
      refine Alike.bind (h.eval hm henv he) ?_
      intro W₁ m₁ m₁' _ _ _ hm₁ _ _
      exact Alike.pure hm₁ .normal
  | echo e =>
      obtain ⟨e', rfl, he⟩ := hs
      refine Alike.bind (h.eval hm henv he) ?_
      intro W₁ m₁ m₁' v v' _ hm₁ _ hv
      refine Alike.bind (Alike.write hm₁ (by rw [hv.display])) ?_
      intro W₂ m₂ m₂' _ _ _ hm₂ _ _
      exact Alike.pure hm₂ .normal
  | var name value =>
      obtain ⟨name', value', rfl, hname, hvalue⟩ := hs
      refine Alike.bind (h.evalOption hm henv hvalue) ?_
      intro W₁ m₁ m₁' v v' hw₁ hm₁ _ hv
      refine Alike.bind (Alike.define hm₁ (henv.mono hw₁) (L.same_lexeme hname) hv) ?_
      intro W₂ m₂ m₂' _ _ _ hm₂ _ _
      exact Alike.pure hm₂ .normal
  | block body =>
      obtain ⟨b, body', rfl, hbody⟩ := hs
      refine Alike.bind (Alike.newFrame (b := b) hm Table.Like.empty) ?_
      rintro W₁ m₁ m₁' address address' hw₁ hm₁ _ ⟨rfl, hmark⟩
      exact h.execAll hm₁ ((henv.mono hw₁).cons hmark) hbody
  | exit keyword code =>
      obtain ⟨keyword', code', rfl, hkeyword, hcode⟩ := hs
      refine Alike.bind (h.eval hm henv hcode) ?_
      intro W₁ m₁ m₁' v v' _ hm₁ _ hv
      exact exitWith hm₁ (L.sameLine hkeyword) hv
  | branch condition yes no =>
      obtain ⟨condition', yes', no', rfl, hcondition, hyes, hno⟩ := hs
      refine Alike.bind (h.test hm henv hcondition) ?_
      rintro W₁ m₁ m₁' holds holds' hw₁ hm₁ _ rfl
      split
      · exact h.exec hm₁ (henv.mono hw₁) hyes
      · cases no with
        | none =>
            obtain rfl : no' = none := hno
            exact Alike.pure hm₁ .normal
        | some s =>
            obtain ⟨t, rfl, ht⟩ := hno
            exact h.exec hm₁ (henv.mono hw₁) ht
  | loop condition body =>
      obtain ⟨condition', body', rfl, hcondition, hbody⟩ := hs
      refine Alike.loop ?_ ?_ ?_ i.fuel List.prefix_rfl hm
      · intro W₁ m₁ m₁' hw₁ hm₁
        exact h.test hm₁ (henv.mono hw₁) hcondition
      · intro W₁ m₁ m₁' hw₁ hm₁
        exact h.exec hm₁ (henv.mono hw₁) hbody
      · intro W₁ m₁ m₁' _ hm₁
        exact Alike.pure hm₁ trivial
  | forLoop start condition after body =>
      obtain ⟨b, start', condition', after', body', rfl, hstart, hcondition, hafter, hbody⟩ := hs
      refine Alike.bind (Alike.newFrame (b := b) hm Table.Like.empty) ?_
      rintro W₁ m₁ m₁' address address' hw₁ hm₁ _ ⟨rfl, hmark⟩
      have hinner := (henv.mono hw₁).cons hmark
      refine Alike.bind (h.begin hm₁ hinner hstart) ?_
      intro W₂ m₂ m₂' _ _ hw₂ hm₂ _ _
      refine Alike.loop ?_ ?_ ?_ i.fuel hw₂ hm₂
      · intro W₃ m₃ m₃' hw₃ hm₃
        exact h.test hm₃ (hinner.mono hw₃) hcondition
      · intro W₃ m₃ m₃' hw₃ hm₃
        exact h.exec hm₃ (hinner.mono hw₃) hbody
      · intro W₃ m₃ m₃' hw₃ hm₃
        exact h.advance hm₃ (hinner.mono hw₃) hafter
  | step direction ref =>
      obtain ⟨ref', rfl, href⟩ := hs
      refine Alike.bind (Reference.step_alike hm henv href direction .statement) ?_
      intro W₁ m₁ m₁' _ _ _ hm₁ _ _
      exact Alike.pure hm₁ .normal
  | jump j keyword =>
      obtain ⟨keyword', rfl⟩ := hs
      cases j with
      | breakLoop => exact Alike.pure hm .broke
      | continueLoop => exact Alike.pure hm .continued
  | routine decl =>
      obtain ⟨b, name', params', body', rfl, hkept, hname, hparams, hbody⟩ := hs
      refine Alike.bind (Alike.newIdent hm) ?_
      intro W₁ m₁ m₁' ident ident' hw₁ hm₁ _ hident
      have henv₁ := henv.mono hw₁
      have hclosure : Closure.Like L W₁ [] ⟨ident, decl, env, false⟩
          ⟨ident', ⟨name', params', body'⟩, env, false⟩ :=
        ⟨hident, rfl, rfl, marks, henv₁, hname, b, hparams, hbody⟩
      have hlexeme : name'.lexeme = L.perm (marks.headD false) decl.name.lexeme :=
        (L.same_lexeme hname).trans hkept.symm
      refine Alike.bind (Alike.define hm₁ henv₁ hlexeme ⟨_, rfl, hclosure⟩) ?_
      intro W₂ m₂ m₂' _ _ _ hm₂ _ _
      exact Alike.pure hm₂ .normal
  | giveBack keyword value =>
      obtain ⟨keyword', value', rfl, hvalue⟩ := hs
      refine Alike.bind (h.evalOption hm henv hvalue) ?_
      intro W₁ m₁ m₁' v v' _ hm₁ _ hv
      exact Alike.pure hm₁ (.returned hv)
  | classDecl name superclass methods statics getters setters =>
      obtain ⟨name', superclass', methods', statics', getters', setters', rfl, hkept, hname, hsuper,
        hmethods, hstatics, hgetters, hsetters⟩ := hs
      refine Alike.bind (h.declareClass hm henv hname hkept hsuper hmethods hstatics hgetters
        hsetters) ?_
      intro W₁ m₁ m₁' _ _ _ hm₁ _ _
      exact Alike.pure hm₁ .normal

end Interp.Respects

/-- **Every level of the evaluator respects the likeness.** -/
theorem interpAt_respects (L : Pairing) (fuel : Nat) : (interpAt fuel).Respects L := by
  induction fuel with
  | zero => exact ⟨fun hm _ _ => Alike.error rfl rfl hm .exhausted,
      fun hm _ _ => Alike.error rfl rfl hm .exhausted⟩
  | succ fuel ih => exact ⟨fun hm henv he => ih.evalStep hm henv he,
      fun hm henv hs => ih.execStep hm henv hs⟩

/-- Programs that are alike run alike. -/
theorem Program.run_alike (fuel : Nat) : ∀ {program program' : Program Depth} {W : List Bool}
    {m m' : Machine}, m.Like L W m' → Stmt.LikeAll L [] program program' →
    Alike L W m m' (Program.run fuel program) (Program.run fuel program') fun _ _ _ => True := by
  intro program
  induction program with
  | nil =>
      intro program' W m m' hm hprogram
      obtain rfl : program' = [] := hprogram
      exact Alike.pure hm trivial
  | cons s rest ih =>
      intro program' W m m' hm hprogram
      obtain ⟨s', rest', rfl, hs, hrest⟩ := hprogram
      have henv : Env.Like W Machine.globalEnv [] := by
        intro k address haddress
        cases k with
        | zero =>
            cases haddress
            exact hm.global
        | succ k => cases haddress
      refine Alike.bind ((interpAt_respects L fuel).exec hm henv hs) ?_
      intro W₁ m₁ m₁' _ _ _ hm₁ _ _
      exact ih hm₁ hrest

end KScript

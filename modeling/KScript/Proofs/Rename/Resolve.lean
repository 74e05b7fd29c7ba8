import KScript.Proofs.Rename.Scopes

/-!
# Renamed programs are accepted

If nothing is wrong with the names of a program, nothing is wrong with those of a renamed one, and resolving
it gives back the depths that it was renamed with: those of the program.
-/

namespace KScript

open Scope

variable {L : Likeness} {marks : List Bool} {c c' : Context}

/-! ## Rules -/

lemma complainWhen_eq_nil {broken : Bool} {token : Token} {complaint : Complaint} :
    complainWhen broken token complaint = [] ↔ broken = false := by
  cases broken <;> simp [complainWhen]

lemma Token.lexeme_renamed {name : Token} (h : name.lexeme ≠ L.second) (b : Bool) :
    (name.renamed L.first L.second b).lexeme = L.perm b name.lexeme := by
  rw [Token.renamed_eq h]
  rfl

lemma Reference.resolveReceiver_name (ref : Reference Unit) (c : Context) :
    (ref.resolveReceiver c).name = ref.name := by
  unfold Reference.resolveReceiver
  split <;> rfl

namespace Scope.Context.Like

lemma checkNew (h : c.Like L marks c') {name name' : Token}
    (hname : name'.lexeme = L.perm (marks.headD false) name.lexeme) (hcheck : c.checkNew name = []) :
    c'.checkNew name' = [] := by
  unfold Context.checkNew at hcheck ⊢
  rw [complainWhen_eq_nil] at hcheck ⊢
  rw [hname, h.scopes.declares_eq, hcheck]

lemma checkRead (h : c.Like L marks c') {ref : Reference Unit} (hne : ref.name.lexeme ≠ L.second)
    (hcheck : c.checkRead ref.name = []) :
    c'.checkRead ((ref.resolve c).renamed L.first L.second marks).name = [] := by
  unfold Context.checkRead at hcheck ⊢
  rw [complainWhen_eq_nil] at hcheck ⊢
  show c'.scopes.isPending (ref.name.renamed _ _ _).lexeme = false
  rw [Token.lexeme_renamed hne]
  exact (h.scopes.isPending_eq hne).trans hcheck

lemma checkParams (b : Bool) : ∀ {params : List Token} {c c' : Context}, c.Like L (b :: marks) c' →
    L.second ∉ params.map (·.lexeme) → c.checkParams params = [] →
    c'.checkParams (params.map (Token.renamed L.first L.second b)) = [] := by
  intro params
  induction params with
  | nil => exact fun _ _ _ => rfl
  | cons p rest ih =>
      intro c c' h hne hcheck
      simp only [List.map_cons, List.mem_cons, not_or] at hne
      obtain ⟨hp, hrest⟩ := List.append_eq_nil_iff.mp hcheck
      have hname := Token.lexeme_renamed (Ne.symm hne.1) b
      exact List.append_eq_nil_iff.mpr
        ⟨h.checkNew hname hp, ih (h.bind (Ne.symm hne.1) hname) hne.2 hrest⟩

lemma checkReceiver (h : c.Like L marks c') {keyword keyword' : Token}
    (hcheck : c.checkReceiver keyword = []) : c'.checkReceiver keyword' = [] := by
  unfold Context.checkReceiver at hcheck ⊢
  rw [h.enclosing, h.body]
  split at hcheck
  · cases hcheck
  · next hclass =>
      rw [if_neg hclass]
      exact complainWhen_eq_nil.mpr (complainWhen_eq_nil.mp hcheck)

lemma checkInherited (h : c.Like L marks c') {keyword keyword' : Token}
    (hcheck : c.checkInherited keyword = []) : c'.checkInherited keyword' = [] := by
  unfold Context.checkInherited at hcheck ⊢
  rw [h.enclosing, h.hasReceiver_eq]
  split at hcheck
  · cases hcheck
  · cases hcheck
  · exact complainWhen_eq_nil.mpr (complainWhen_eq_nil.mp hcheck)

/-- A name and what it was replaced by are resolved alike. -/
lemma resolve (h : c.Like L marks c') {ref : Reference Unit} (hne : ref.name.lexeme ≠ L.second) :
    ((ref.resolve c).renamed L.first L.second marks).forget.resolve c'
      = (ref.resolve c).renamed L.first L.second marks := by
  show (⟨_, c'.scopes.depth (ref.name.renamed _ _ _).lexeme⟩ : Reference Depth) = ⟨_, _⟩
  rw [Token.lexeme_renamed hne]
  exact congrArg (Reference.mk _) (h.scopes.depth_eq hne)

lemma resolveReceiver (h : c.Like L marks c') {ref : Reference Unit}
    (hne : ref.name.lexeme ≠ L.second) :
    ((ref.resolveReceiver c).renamed L.first L.second marks).forget.resolveReceiver c'
      = (ref.resolveReceiver c).renamed L.first L.second marks := by
  have hresolve := h.resolve hne
  by_cases hnone : c.enclosing = .none ∨ c.body = .staticMethod
  · have hnone' : c'.enclosing = .none ∨ c'.body = .staticMethod := by
      rwa [h.enclosing, h.body]
    simp only [Reference.resolveReceiver, hnone, hnone', if_true]
    rfl
  · have hnone' : ¬(c'.enclosing = .none ∨ c'.body = .staticMethod) := by
      rwa [h.enclosing, h.body]
    simp only [Reference.resolveReceiver, hnone, hnone', if_false]
    exact hresolve

end Scope.Context.Like

/-! ## Expressions -/

/-- Nothing is wrong with the expression, and it has the depths that it is resolved to. -/
def Expr.Accepted (c : Context) (e : Expr Depth) : Prop :=
  e.forget.check c = [] ∧ e.forget.resolve c = e

def Expr.AcceptedAll (c : Context) (es : List (Expr Depth)) : Prop :=
  Expr.checkAll c (Expr.forgetAll es) = [] ∧ Expr.resolveAll c (Expr.forgetAll es) = es

mutual

lemma Expr.accepted_renamed (h : c.Like L marks c') : ∀ {e : Expr Unit},
    L.second ∉ (e.resolve c).names → e.check c = [] →
    ((e.resolve c).renamed L.first L.second marks).Accepted c'
  | .literal _, _, _ => ⟨rfl, rfl⟩
  | .array items, hne, hcheck =>
      have hitems := Expr.acceptedAll_renamed h (show L.second ∉ Expr.namesAll _ from hne) hcheck
      ⟨hitems.1, congrArg Expr.array hitems.2⟩
  | .grouping inner, hne, hcheck =>
      have hinner := Expr.accepted_renamed h (e := inner) hne hcheck
      ⟨hinner.1, congrArg Expr.grouping hinner.2⟩
  | .unary op operand, hne, hcheck =>
      have hoperand := Expr.accepted_renamed h (e := operand) hne hcheck
      ⟨hoperand.1, congrArg (Expr.unary op) hoperand.2⟩
  | .binary left op right, hne, hcheck => by
      simp only [Expr.resolve, Expr.names, List.mem_append, not_or] at hne
      obtain ⟨hleft, hright⟩ := List.append_eq_nil_iff.mp hcheck
      have hl := Expr.accepted_renamed h hne.1 hleft
      have hr := Expr.accepted_renamed h hne.2 hright
      exact ⟨List.append_eq_nil_iff.mpr ⟨hl.1, hr.1⟩, congrArg₂ (Expr.binary · op ·) hl.2 hr.2⟩
  | .logical left op right, hne, hcheck => by
      simp only [Expr.resolve, Expr.names, List.mem_append, not_or] at hne
      obtain ⟨hleft, hright⟩ := List.append_eq_nil_iff.mp hcheck
      have hl := Expr.accepted_renamed h hne.1 hleft
      have hr := Expr.accepted_renamed h hne.2 hright
      exact ⟨List.append_eq_nil_iff.mpr ⟨hl.1, hr.1⟩, congrArg₂ (Expr.logical · op ·) hl.2 hr.2⟩
  | .conditional condition yes no, hne, hcheck => by
      simp only [Expr.resolve, Expr.names, List.mem_append, not_or] at hne
      obtain ⟨hboth, hno⟩ := List.append_eq_nil_iff.mp hcheck
      obtain ⟨hcondition, hyes⟩ := List.append_eq_nil_iff.mp hboth
      have hc := Expr.accepted_renamed h hne.1.1 hcondition
      have hy := Expr.accepted_renamed h hne.1.2 hyes
      have hn := Expr.accepted_renamed h hne.2 hno
      refine ⟨?_, ?_⟩
      · show _ ++ _ ++ _ = []
        rw [hc.1, hy.1, hn.1]
        rfl
      · show Expr.conditional _ _ _ = _
        rw [hc.2, hy.2, hn.2]
        rfl
  | .variable ref, hne, hcheck => by
      simp only [Expr.resolve, Expr.names, List.mem_singleton] at hne
      exact ⟨h.checkRead (Ne.symm hne) hcheck, congrArg Expr.variable (h.resolve (Ne.symm hne))⟩
  | .assign ref value, hne, hcheck => by
      simp only [Expr.resolve, Expr.names, List.mem_cons, not_or] at hne
      have hvalue := Expr.accepted_renamed h hne.2 hcheck
      exact ⟨hvalue.1, congrArg₂ Expr.assign (h.resolve (Ne.symm hne.1)) hvalue.2⟩
  | .step direction ref, hne, _ => by
      simp only [Expr.resolve, Expr.names, List.mem_singleton] at hne
      exact ⟨rfl, congrArg (Expr.step direction) (h.resolve (Ne.symm hne))⟩
  | .call callee paren args, hne, hcheck => by
      simp only [Expr.resolve, Expr.names, List.mem_append, not_or] at hne
      obtain ⟨hcallee, hargs⟩ := List.append_eq_nil_iff.mp hcheck
      have hf := Expr.accepted_renamed h hne.1 hcallee
      have ha := Expr.acceptedAll_renamed h hne.2 hargs
      exact ⟨List.append_eq_nil_iff.mpr ⟨hf.1, ha.1⟩, congrArg₂ (Expr.call · paren ·) hf.2 ha.2⟩
  | .get object name inside, hne, hcheck =>
      have hobject := Expr.accepted_renamed h (e := object) hne hcheck
      ⟨hobject.1, congrArg (Expr.get · name inside) hobject.2⟩
  | .set object name value inside, hne, hcheck => by
      simp only [Expr.resolve, Expr.names, List.mem_append, not_or] at hne
      obtain ⟨hvalue, hobject⟩ := List.append_eq_nil_iff.mp hcheck
      have hv := Expr.accepted_renamed h hne.2 hvalue
      have ho := Expr.accepted_renamed h hne.1 hobject
      exact ⟨List.append_eq_nil_iff.mpr ⟨hv.1, ho.1⟩,
        congrArg₂ (Expr.set · name · inside) ho.2 hv.2⟩
  | .receiver ref, hne, hcheck => by
      simp only [Expr.resolve, Expr.names, List.mem_singleton, Reference.resolveReceiver_name] at hne
      exact ⟨h.checkReceiver hcheck, congrArg Expr.receiver (h.resolveReceiver (Ne.symm hne))⟩
  | .inherited ref method, hne, hcheck => by
      simp only [Expr.resolve, Expr.names, List.mem_singleton] at hne
      exact ⟨h.checkInherited hcheck, congrArg (Expr.inherited · method) (h.resolve (Ne.symm hne))⟩

lemma Expr.acceptedAll_renamed (h : c.Like L marks c') : ∀ {es : List (Expr Unit)},
    L.second ∉ Expr.namesAll (Expr.resolveAll c es) → Expr.checkAll c es = [] →
    Expr.AcceptedAll c' (Expr.renamedAll L.first L.second marks (Expr.resolveAll c es))
  | [], _, _ => ⟨rfl, rfl⟩
  | e :: rest, hne, hcheck => by
      simp only [Expr.resolveAll, Expr.namesAll, List.mem_append, not_or] at hne
      obtain ⟨he, hrest⟩ := List.append_eq_nil_iff.mp hcheck
      have hfirst := Expr.accepted_renamed h hne.1 he
      have hothers := Expr.acceptedAll_renamed h hne.2 hrest
      exact ⟨List.append_eq_nil_iff.mpr ⟨hfirst.1, hothers.1⟩,
        congrArg₂ List.cons hfirst.2 hothers.2⟩

end

/-- The same for an expression that may be left out. -/
def Expr.AcceptedOption (c : Context) (e : Option (Expr Depth)) : Prop :=
  Expr.checkOption c (e.map Expr.forget) = [] ∧ (e.map Expr.forget).map (Expr.resolve c) = e

lemma Expr.acceptedOption_renamed (h : c.Like L marks c') {e : Option (Expr Unit)}
    (hne : L.second ∉ Expr.namesOption (e.map (Expr.resolve c))) (hcheck : Expr.checkOption c e = []) :
    Expr.AcceptedOption c' ((e.map (Expr.resolve c)).map (Expr.renamed L.first L.second marks)) := by
  cases e with
  | none => exact ⟨rfl, rfl⟩
  | some e =>
      have he := Expr.accepted_renamed h hne hcheck
      exact ⟨he.1, congrArg some he.2⟩

/-! ## Statements -/

/-- The declaration of a variable: its name is new in the renamed scope too. -/
lemma Scope.Context.Like.checkVar (h : c.Like L marks c') {name : Token} {value : Option (Expr Unit)}
    (hname : name.lexeme ≠ L.second)
    (hvalue : L.second ∉ Expr.namesOption (value.map (Expr.resolve (c.declare name))))
    (hcheck : c.checkVar name value = []) :
    let name' := name.renamed L.first L.second (marks.headD false)
    let value' := (value.map (Expr.resolve (c.declare name))).map (Expr.renamed L.first L.second marks)
    c'.checkVar name' (value'.map Expr.forget) = []
      ∧ (value'.map Expr.forget).map (Expr.resolve (c'.declare name')) = value' := by
  intro name' value'
  have hlexeme : name'.lexeme = L.perm (marks.headD false) name.lexeme := Token.lexeme_renamed hname _
  obtain ⟨hnew, hinitial⟩ := List.append_eq_nil_iff.mp hcheck
  have haccepted := Expr.acceptedOption_renamed (h.declare hname hlexeme) hvalue hinitial
  exact ⟨List.append_eq_nil_iff.mpr ⟨h.checkNew hlexeme hnew, haccepted.1⟩, haccepted.2⟩

/-- The scopes after statements are alike again. -/
lemma Scope.Context.Like.after (h : c.Like L marks c') {s : Stmt Unit} {s' : Stmt Depth}
    (hs : (s.resolve c).Renamed L.first L.second marks s') (hne : L.second ∉ (s.resolve c).names) :
    (c.after s).Like L marks (c'.after s'.forget) := by
  cases s with
  | var name value =>
      obtain rfl : s' = .var _ _ := hs
      simp only [Stmt.resolve, Stmt.names, List.mem_cons, not_or] at hne
      exact h.bind (Ne.symm hne.1) (Token.lexeme_renamed (Ne.symm hne.1) _)
  | routine decl =>
      obtain ⟨b, body', rfl, hkept, -⟩ := hs
      simp only [Stmt.resolve, Stmt.names, List.mem_cons, not_or] at hne
      exact h.bind (Ne.symm hne.1) (Token.perm_kept (Ne.symm hne.1) hkept).symm
  | classDecl name superclass methods statics getters setters =>
      obtain ⟨_, _, _, _, rfl, hkept, -⟩ := hs
      simp only [Stmt.resolve, Stmt.names, List.mem_cons, not_or] at hne
      exact h.bind (Ne.symm hne.1) (Token.perm_kept (Ne.symm hne.1) hkept).symm
  | block body | branch condition yes no =>
      obtain ⟨_, _, rfl, -⟩ := hs
      exact h
  | loop condition body =>
      obtain ⟨_, rfl, -⟩ := hs
      exact h
  | forLoop start condition after body =>
      obtain ⟨_, _, rfl, -⟩ := hs
      exact h
  | _ =>
      obtain rfl := hs
      exact h

/-- Nothing is wrong with the statement, and it has the depths that it is resolved to. -/
def Stmt.Accepted (c : Context) (s : Stmt Depth) : Prop :=
  s.forget.check c = [] ∧ s.forget.resolve c = s

def Stmt.AcceptedAll (c : Context) (ss : List (Stmt Depth)) : Prop :=
  Stmt.checkAll c (Stmt.forgetAll ss) = [] ∧ Stmt.resolveAll c (Stmt.forgetAll ss) = ss

def Stmt.AcceptedOption (c : Context) (s : Option (Stmt Depth)) : Prop :=
  Stmt.checkOption c (Stmt.forgetOption s) = [] ∧ Stmt.resolveOption c (Stmt.forgetOption s) = s

def Stmt.AcceptedRoutines (c : Context) (kind : Token → BodyKind)
    (rs : List (Routine (Stmt Depth))) : Prop :=
  Stmt.checkRoutines c kind (Stmt.forgetRoutines rs) = []
    ∧ Stmt.resolveRoutines c kind (Stmt.forgetRoutines rs) = rs

/-- The first clause of a `for` loop, and the scopes after it. -/
lemma ForStart.accepted_renamed (h : c.Like L marks c') {start : Option (ForStart Unit)}
    (hne : L.second ∉ ForStart.names (start.map (ForStart.resolve c)))
    (hcheck : ForStart.check c start = []) :
    let start' := (start.map (ForStart.resolve c)).map (ForStart.renamed L.first L.second marks)
    ForStart.check c' (start'.map ForStart.forget) = []
      ∧ (start'.map ForStart.forget).map (ForStart.resolve c') = start'
      ∧ (c.afterStart start).Like L marks (c'.afterStart (start'.map ForStart.forget)) := by
  match start, hne, hcheck with
  | none, _, _ => exact ⟨rfl, rfl, h⟩
  | some (.expr e), hne, hcheck =>
      have he := Expr.accepted_renamed h hne hcheck
      exact ⟨he.1, congrArg (fun e => some (ForStart.expr e)) he.2, h⟩
  | some (.var name value), hne, hcheck =>
      simp only [Option.map_some, ForStart.resolve, ForStart.names, List.mem_cons, not_or] at hne
      have hvar := h.checkVar (Ne.symm hne.1) hne.2 hcheck
      exact ⟨hvar.1, congrArg (fun v => some (ForStart.var _ v)) hvar.2,
        h.bind (Ne.symm hne.1) (Token.lexeme_renamed (Ne.symm hne.1) _)⟩

lemma Scope.Context.Like.checkSuperclass (h : c.Like L marks c') {name : Token}
    (hname : name.lexeme ≠ L.second) {superclass : Option (Reference Unit)}
    (hne : L.second ∉ ((superclass.map (·.resolve c)).map (·.name.lexeme)).toList)
    (hcheck : c.checkSuperclass name superclass = []) :
    let superclass' :=
      (superclass.map (·.resolve c)).map (Reference.renamed L.first L.second marks)
    c'.checkSuperclass name (superclass'.map Reference.forget) = []
      ∧ (superclass'.map Reference.forget).map (·.resolve c') = superclass' := by
  intro superclass'
  cases superclass with
  | none => exact ⟨rfl, rfl⟩
  | some ref =>
      simp only [Option.map_some, Option.toList_some, List.mem_singleton] at hne
      have href : ref.name.lexeme ≠ L.second := Ne.symm hne
      obtain ⟨hself, hread⟩ := List.append_eq_nil_iff.mp hcheck
      refine ⟨List.append_eq_nil_iff.mpr ⟨complainWhen_eq_nil.mpr ?_, h.checkRead href hread⟩,
        congrArg some (h.resolve href)⟩
      have hself : ref.name.lexeme ≠ name.lexeme := by simpa using complainWhen_eq_nil.mp hself
      show decide ((ref.name.renamed _ _ _).lexeme = name.lexeme) = false
      rw [Token.lexeme_renamed href]
      -- the superclass keeps its name, or has the new one, which is not that of the class
      rcases L.perm_perm_eq_or false (Likeness.mark marks (c.scopes.depth ref.name.lexeme)) href
        with heq | heq
      · exact decide_eq_false (heq.trans_ne hself)
      · exact decide_eq_false (heq.trans_ne hname.symm)

mutual

lemma Stmt.Renamed.accepted {marks : List Bool} {c c' : Context} (h : c.Like L marks c') :
    ∀ {s : Stmt Unit} {s' : Stmt Depth}, (s.resolve c).Renamed L.first L.second marks s' →
      L.second ∉ (s.resolve c).names → s.check c = [] → s'.Accepted c'
  | .expr e, _, rfl, hne, hcheck =>
      have he := Expr.accepted_renamed h (e := e) hne hcheck
      ⟨he.1, congrArg Stmt.expr he.2⟩
  | .echo e, _, rfl, hne, hcheck =>
      have he := Expr.accepted_renamed h (e := e) hne hcheck
      ⟨he.1, congrArg Stmt.echo he.2⟩
  | .var name value, _, rfl, hne, hcheck => by
      simp only [Stmt.resolve, Stmt.names, List.mem_cons, not_or] at hne
      have hvar := h.checkVar (Ne.symm hne.1) hne.2 hcheck
      exact ⟨hvar.1, congrArg (Stmt.var _) hvar.2⟩
  | .block body, _, ⟨b, body', rfl, hbody⟩, hne, hcheck =>
      have hall := Stmt.RenamedAll.accepted (h.enter b) hbody hne hcheck
      ⟨hall.1, congrArg Stmt.block hall.2⟩
  | .exit keyword code, _, rfl, hne, hcheck =>
      have hcode := Expr.accepted_renamed h (e := code) hne hcheck
      ⟨hcode.1, congrArg (Stmt.exit keyword) hcode.2⟩
  | .branch condition yes no, _, ⟨yes', no', rfl, hyes, hno⟩, hne, hcheck => by
      simp only [Stmt.resolve, Stmt.names, List.mem_append, not_or] at hne
      obtain ⟨hboth, hcheckNo⟩ := List.append_eq_nil_iff.mp hcheck
      obtain ⟨hcheckCondition, hcheckYes⟩ := List.append_eq_nil_iff.mp hboth
      have hc := Expr.accepted_renamed h hne.1.1 hcheckCondition
      have hy := Stmt.Renamed.accepted h hyes hne.1.2 hcheckYes
      have hn := Stmt.RenamedOption.accepted h hno hne.2 hcheckNo
      refine ⟨?_, ?_⟩
      · show _ ++ _ ++ _ = []
        rw [hc.1, hy.1, hn.1]
        rfl
      · show Stmt.branch _ _ _ = _
        rw [hc.2, hy.2, hn.2]
  | .loop condition body, _, ⟨body', rfl, hbody⟩, hne, hcheck => by
      simp only [Stmt.resolve, Stmt.names, List.mem_append, not_or] at hne
      obtain ⟨hcheckCondition, hcheckBody⟩ := List.append_eq_nil_iff.mp hcheck
      have hc := Expr.accepted_renamed h hne.1 hcheckCondition
      have hb := Stmt.Renamed.accepted h hbody hne.2 hcheckBody
      exact ⟨List.append_eq_nil_iff.mpr ⟨hc.1, hb.1⟩, congrArg₂ Stmt.loop hc.2 hb.2⟩
  | .forLoop start condition after body, _, ⟨b, body', rfl, hbody⟩, hne, hcheck => by
      simp only [Stmt.resolve, Stmt.names, List.mem_append, not_or] at hne
      obtain ⟨hthree, hcheckBody⟩ := List.append_eq_nil_iff.mp hcheck
      obtain ⟨htwo, hcheckAfter⟩ := List.append_eq_nil_iff.mp hthree
      obtain ⟨hcheckStart, hcheckCondition⟩ := List.append_eq_nil_iff.mp htwo
      have hs := ForStart.accepted_renamed (h.enter b) hne.1.1.1 hcheckStart
      have hc := Expr.accepted_renamed hs.2.2 hne.1.1.2 hcheckCondition
      have ha := Expr.acceptedOption_renamed hs.2.2 hne.1.2 hcheckAfter
      have hb := Stmt.Renamed.accepted hs.2.2 hbody hne.2 hcheckBody
      refine ⟨?_, ?_⟩
      · show _ ++ _ ++ _ ++ _ = []
        rw [hs.1, hc.1, ha.1, hb.1]
        rfl
      · show Stmt.forLoop _ _ _ _ = _
        rw [hs.2.1, hc.2, ha.2, hb.2]
  | .step direction ref, _, rfl, hne, _ => by
      simp only [Stmt.resolve, Stmt.names, List.mem_singleton] at hne
      exact ⟨rfl, congrArg (Stmt.step direction) (h.resolve (Ne.symm hne))⟩
  | .jump j keyword, _, rfl, _, _ => ⟨rfl, rfl⟩
  | .routine ⟨name, params, body⟩, _, ⟨b, body', rfl, hkept, hbody⟩, hne, hcheck => by
      simp only [Stmt.resolve, Stmt.names, List.mem_cons, List.mem_append, not_or] at hne
      obtain ⟨htwo, hcheckBody⟩ := List.append_eq_nil_iff.mp hcheck
      obtain ⟨hcheckName, hcheckParams⟩ := List.append_eq_nil_iff.mp htwo
      have hlexeme := (Token.perm_kept (Ne.symm hne.1) hkept).symm
      have houter := h.bind (Ne.symm hne.1) hlexeme
      have hp := Scope.Context.Like.checkParams b (houter.enter b) hne.2.1 hcheckParams
      have hb := Stmt.RenamedAll.accepted (houter.inRoutine .subroutine b hne.2.1) hbody hne.2.2
        hcheckBody
      refine ⟨?_, congrArg (fun body => Stmt.routine ⟨name, _, body⟩) hb.2⟩
      show _ ++ _ ++ _ = []
      rw [h.checkNew hlexeme hcheckName, hp, hb.1]
      rfl
  | .giveBack keyword value, _, rfl, hne, hcheck => by
      obtain ⟨hcheckReturn, hcheckValue⟩ := List.append_eq_nil_iff.mp hcheck
      have hv := Expr.acceptedOption_renamed h hne hcheckValue
      refine ⟨List.append_eq_nil_iff.mpr ⟨?_, hv.1⟩, congrArg (Stmt.giveBack keyword) hv.2⟩
      simpa [Context.checkReturn, h.body] using hcheckReturn
  | .classDecl name superclass methods statics getters setters, _,
      ⟨_, _, _, _, rfl, hkept, hmethods, hstatics, hgetters, hsetters⟩, hne, hcheck => by
      simp only [Stmt.resolve, Stmt.names, List.mem_cons, List.mem_append, not_or] at hne
      obtain ⟨hname, ⟨⟨⟨hsuper, hm⟩, hs⟩, hg⟩, ht⟩ := hne
      obtain ⟨hfive, hcheckStatics⟩ := List.append_eq_nil_iff.mp hcheck
      obtain ⟨hfour, hcheckSetters⟩ := List.append_eq_nil_iff.mp hfive
      obtain ⟨hthree, hcheckGetters⟩ := List.append_eq_nil_iff.mp hfour
      obtain ⟨htwo, hcheckMethods⟩ := List.append_eq_nil_iff.mp hthree
      obtain ⟨hcheckName, hcheckSuperclass⟩ := List.append_eq_nil_iff.mp htwo
      have hlexeme := (Token.perm_kept (Ne.symm hname) hkept).symm
      have houter := h.bind (Ne.symm hname) hlexeme
      have hparent := houter.checkSuperclass (Ne.symm hname) hsuper hcheckSuperclass
      have hinner : ((c.bind name).inClass superclass).Like L
          (Likeness.inClass marks (superclass.map (·.resolve (c.bind name))))
          ((c'.bind name).inClass (((superclass.map (·.resolve (c.bind name))).map
            (Reference.renamed L.first L.second marks)).map Reference.forget)) :=
        houter.inClass (by simp) (by simp)
      have hms := Stmt.RenamedRoutines.accepted hinner.withReceiver methodKind hmethods hm
        hcheckMethods
      have hss := Stmt.RenamedRoutines.accepted hinner (fun _ => .staticMethod) hstatics hs
        hcheckStatics
      have hgs := Stmt.RenamedRoutines.accepted hinner.withReceiver (fun _ => .method) hgetters hg
        hcheckGetters
      have hts := Stmt.RenamedRoutines.accepted hinner.withReceiver (fun _ => .method) hsetters ht
        hcheckSetters
      refine ⟨?_, ?_⟩
      · show _ ++ _ ++ _ ++ _ ++ _ ++ _ = []
        rw [h.checkNew hlexeme hcheckName, hparent.1, hms.1, hgs.1, hts.1, hss.1]
        rfl
      · show Stmt.classDecl _ _ _ _ _ _ = _
        rw [hparent.2, hms.2, hss.2, hgs.2, hts.2]
termination_by structural s => s

lemma Stmt.RenamedAll.accepted {marks : List Bool} {c c' : Context} (h : c.Like L marks c') :
    ∀ {ss : List (Stmt Unit)} {ss' : List (Stmt Depth)},
      Stmt.RenamedAll L.first L.second marks (Stmt.resolveAll c ss) ss' →
      L.second ∉ Stmt.namesAll (Stmt.resolveAll c ss) → Stmt.checkAll c ss = [] →
      Stmt.AcceptedAll c' ss'
  | [], _, rfl, _, _ => ⟨rfl, rfl⟩
  | _ :: rest, _, ⟨s', rest', rfl, hs, hrest⟩, hne, hcheck => by
      simp only [Stmt.resolveAll, Stmt.namesAll, List.mem_append, not_or] at hne
      obtain ⟨hcheckFirst, hcheckRest⟩ := List.append_eq_nil_iff.mp hcheck
      have hfirst := Stmt.Renamed.accepted h hs hne.1 hcheckFirst
      have hothers := Stmt.RenamedAll.accepted (h.after hs hne.1) hrest hne.2 hcheckRest
      exact ⟨List.append_eq_nil_iff.mpr ⟨hfirst.1, hothers.1⟩,
        congrArg₂ List.cons hfirst.2 hothers.2⟩

lemma Stmt.RenamedOption.accepted {marks : List Bool} {c c' : Context} (h : c.Like L marks c') :
    ∀ {s : Option (Stmt Unit)} {s' : Option (Stmt Depth)},
      Stmt.RenamedOption L.first L.second marks (Stmt.resolveOption c s) s' →
      L.second ∉ Stmt.namesOption (Stmt.resolveOption c s) → Stmt.checkOption c s = [] →
      Stmt.AcceptedOption c' s'
  | none, _, rfl, _, _ => ⟨rfl, rfl⟩
  | some _, _, ⟨t, rfl, ht⟩, hne, hcheck =>
      have ht := Stmt.Renamed.accepted h ht hne hcheck
      ⟨ht.1, congrArg some ht.2⟩

lemma Stmt.RenamedRoutines.accepted {marks : List Bool} {c c' : Context} (h : c.Like L marks c')
    (kind : Token → BodyKind) :
    ∀ {rs : List (Routine (Stmt Unit))} {rs' : List (Routine (Stmt Depth))},
      Stmt.RenamedRoutines L.first L.second marks (Stmt.resolveRoutines c kind rs) rs' →
      L.second ∉ Stmt.namesRoutines (Stmt.resolveRoutines c kind rs) →
      Stmt.checkRoutines c kind rs = [] → Stmt.AcceptedRoutines c' kind rs'
  | [], _, rfl, _, _ => ⟨rfl, rfl⟩
  | ⟨name, params, body⟩ :: rest, _, ⟨b, body', rest', rfl, hbody, hrest⟩, hne, hcheck => by
      simp only [Stmt.resolveRoutines, Stmt.namesRoutines, List.mem_append, not_or] at hne
      obtain ⟨htwo, hcheckRest⟩ := List.append_eq_nil_iff.mp hcheck
      obtain ⟨hcheckParams, hcheckBody⟩ := List.append_eq_nil_iff.mp htwo
      have hp := Scope.Context.Like.checkParams b (h.enter b) hne.1.1 hcheckParams
      have hb := Stmt.RenamedAll.accepted (h.inRoutine (kind name) b hne.1.1) hbody hne.1.2 hcheckBody
      have hr := Stmt.RenamedRoutines.accepted h kind hrest hne.2 hcheckRest
      refine ⟨?_, ?_⟩
      · show _ ++ _ ++ _ = []
        rw [hp, hb.1, hr.1]
        rfl
      · exact congrArg₂ List.cons (congrArg (Routine.mk name _) hb.2) hr.2

end

end KScript

import KScript.Proofs.Scope.Uses

/-!
# Programs that are admitted

`Proper` says that the names of a tree are words that can stand where they stand: `this` and `super` are
never declared and never assigned to.  `Admitted U c` says that a tree is accepted in the context `c`, is
proper, and uses names only at the places that `U` lists; it is a judgement along the tree, in the
contexts in which the parts of the tree are resolved.
-/

namespace KScript

open Scope

/-- The token can name a variable, a routine or a class: it is neither `this` nor `super`. -/
def Token.Declarable (t : Token) : Prop := t.lexeme ≠ thisName ∧ t.lexeme ≠ superName

/-! ## Proper names -/

mutual

/-- The names of an expression are words that can stand where they stand. -/
def Expr.Proper : Expr Unit → Prop
  | .literal _ => True
  | .array items => Expr.ProperAll items
  | .grouping inner => inner.Proper
  | .unary _ operand => operand.Proper
  | .binary left _ right => left.Proper ∧ right.Proper
  | .logical left _ right => left.Proper ∧ right.Proper
  | .conditional condition yes no => condition.Proper ∧ yes.Proper ∧ no.Proper
  | .variable ref => ref.name.Declarable
  | .assign ref value => ref.name.Declarable ∧ value.Proper
  | .step _ ref => ref.name.Declarable
  | .call callee _ args => callee.Proper ∧ Expr.ProperAll args
  | .get object _ _ => object.Proper
  | .set object _ value _ => object.Proper ∧ value.Proper
  | .receiver ref => ref.name.lexeme = thisName
  | .inherited ref _ => ref.name.lexeme = superName

/-- The names of the expressions are proper. -/
def Expr.ProperAll : List (Expr Unit) → Prop
  | [] => True
  | e :: rest => e.Proper ∧ Expr.ProperAll rest

end

/-- The names of the first clause of a `for` loop are proper. -/
def ForStart.Proper : Option (ForStart Unit) → Prop
  | none => True
  | some (.var name value) => name.Declarable ∧ ∀ e ∈ value, e.Proper
  | some (.expr e) => e.Proper

mutual

/-- The names of a statement are proper; a get method has no parameter and a set method has one. -/
def Stmt.Proper : Stmt Unit → Prop
  | .expr e => e.Proper
  | .echo e => e.Proper
  | .var name value => name.Declarable ∧ ∀ e ∈ value, e.Proper
  | .block body => Stmt.ProperAll body
  | .exit _ code => code.Proper
  | .branch condition yes no => condition.Proper ∧ yes.Proper ∧ Stmt.ProperOption no
  | .loop condition body => condition.Proper ∧ body.Proper
  | .forLoop start condition after body =>
    ForStart.Proper start ∧ condition.Proper ∧ (∀ e ∈ after, e.Proper) ∧ body.Proper
  | .step _ ref => ref.name.Declarable
  | .jump _ _ => True
  | .routine ⟨name, params, body⟩ =>
    name.Declarable ∧ (∀ p ∈ params, p.Declarable) ∧ Stmt.ProperAll body
  | .giveBack _ value => ∀ e ∈ value, e.Proper
  | .classDecl name superclass methods statics getters setters =>
    name.Declarable ∧ (∀ ref ∈ superclass, ref.name.Declarable)
      ∧ Stmt.ProperRoutines methods ∧ Stmt.ProperRoutines statics
      ∧ Stmt.ProperRoutines getters ∧ Stmt.ProperRoutines setters
      ∧ (∀ r ∈ getters, r.params.length = 0) ∧ ∀ r ∈ setters, r.params.length = 1

/-- The names of the statements are proper. -/
def Stmt.ProperAll : List (Stmt Unit) → Prop
  | [] => True
  | s :: rest => s.Proper ∧ Stmt.ProperAll rest

/-- The names of a statement that may be left out are proper. -/
def Stmt.ProperOption : Option (Stmt Unit) → Prop
  | none => True
  | some s => s.Proper

/-- The names of the routines are proper, but for those of the routines themselves: they are properties. -/
def Stmt.ProperRoutines : List (Routine (Stmt Unit)) → Prop
  | [] => True
  | ⟨_, params, body⟩ :: rest =>
    (∀ p ∈ params, p.Declarable) ∧ Stmt.ProperAll body ∧ Stmt.ProperRoutines rest

end

/-! ## Admitted trees -/

mutual

/-- The expression is admitted in a context, with uses from a list. -/
def Expr.Admitted (U : List Use) (c : Context) : Expr Unit → Prop
  | .literal _ => True
  | .array items => Expr.AdmittedAll U c items
  | .grouping inner => inner.Admitted U c
  | .unary _ operand => operand.Admitted U c
  | .binary left _ right => left.Admitted U c ∧ right.Admitted U c
  | .logical left _ right => left.Admitted U c ∧ right.Admitted U c
  | .conditional condition yes no =>
    condition.Admitted U c ∧ yes.Admitted U c ∧ no.Admitted U c
  | .variable ref =>
    ref.name.Declarable ∧ c.checkRead ref.name = [] ∧ ⟨c, .reading, ref.name⟩ ∈ U
  | .assign ref value => ref.name.Declarable ∧ ⟨c, .assign, ref.name⟩ ∈ U ∧ value.Admitted U c
  | .step direction ref => ref.name.Declarable ∧ ⟨c, .stepExpr direction, ref.name⟩ ∈ U
  | .call callee _ args => callee.Admitted U c ∧ Expr.AdmittedAll U c args
  | .get object _ _ => object.Admitted U c
  | .set object _ value _ => object.Admitted U c ∧ value.Admitted U c
  | .receiver ref =>
    ref.name.lexeme = thisName ∧ c.checkReceiver ref.name = [] ∧ ⟨c, .receiver, ref.name⟩ ∈ U
  | .inherited ref _ =>
    ref.name.lexeme = superName ∧ c.checkInherited ref.name = [] ∧ ⟨c, .inherited, ref.name⟩ ∈ U

/-- The expressions are admitted. -/
def Expr.AdmittedAll (U : List Use) (c : Context) : List (Expr Unit) → Prop
  | [] => True
  | e :: rest => e.Admitted U c ∧ Expr.AdmittedAll U c rest

end

/-- The first clause of a `for` loop is admitted. -/
def ForStart.Admitted (U : List Use) (c : Context) : Option (ForStart Unit) → Prop
  | none => True
  | some (.var name value) =>
    name.Declarable ∧ ∀ e ∈ value, e.Admitted U (c.declare name)
  | some (.expr e) => e.Admitted U c

mutual

/-- The statement is admitted in a context, with uses from a list. -/
def Stmt.Admitted (U : List Use) (c : Context) : Stmt Unit → Prop
  | .expr e => e.Admitted U c
  | .echo e => e.Admitted U c
  | .var name value => name.Declarable ∧ ∀ e ∈ value, e.Admitted U (c.declare name)
  | .block body => Stmt.AdmittedAll U c.enter body
  | .exit _ code => code.Admitted U c
  | .branch condition yes no =>
    condition.Admitted U c ∧ yes.Admitted U c ∧ Stmt.AdmittedOption U c no
  | .loop condition body => condition.Admitted U c ∧ body.Admitted U c
  | .forLoop start condition after body =>
    ForStart.Admitted U c.enter start
      ∧ condition.Admitted U (c.enter.afterStart start)
      ∧ (∀ e ∈ after, e.Admitted U (c.enter.afterStart start))
      ∧ body.Admitted U (c.enter.afterStart start)
  | .step direction ref => ref.name.Declarable ∧ ⟨c, .stepStmt direction, ref.name⟩ ∈ U
  | .jump _ _ => True
  | .routine ⟨name, params, body⟩ =>
    name.Declarable ∧ (∀ p ∈ params, p.Declarable)
      ∧ Stmt.AdmittedAll U ((c.bind name).inRoutine .subroutine params) body
  | .giveBack _ value => ∀ e ∈ value, e.Admitted U c
  | .classDecl name superclass methods statics getters setters =>
    let inner := (c.bind name).inClass superclass
    name.Declarable ∧ (∀ ref ∈ superclass, (Expr.variable ref).Admitted U (c.bind name))
      ∧ Stmt.AdmittedRoutines U inner.withReceiver methodKind methods
      ∧ Stmt.AdmittedRoutines U inner (fun _ => .staticMethod) statics
      ∧ Stmt.AdmittedRoutines U inner.withReceiver (fun _ => .method) getters
      ∧ Stmt.AdmittedRoutines U inner.withReceiver (fun _ => .method) setters
      ∧ (∀ r ∈ getters, r.params.length = 0) ∧ ∀ r ∈ setters, r.params.length = 1

/-- The statements are admitted, each in the scopes that the ones before it left. -/
def Stmt.AdmittedAll (U : List Use) (c : Context) : List (Stmt Unit) → Prop
  | [] => True
  | s :: rest => s.Admitted U c ∧ Stmt.AdmittedAll U (c.after s) rest

/-- A statement that may be left out is admitted. -/
def Stmt.AdmittedOption (U : List Use) (c : Context) : Option (Stmt Unit) → Prop
  | none => True
  | some s => s.Admitted U c

/-- The routines of a class are admitted. -/
def Stmt.AdmittedRoutines (U : List Use) (c : Context) (kind : Token → BodyKind) :
    List (Routine (Stmt Unit)) → Prop
  | [] => True
  | ⟨name, params, body⟩ :: rest =>
    (∀ p ∈ params, p.Declarable) ∧ Stmt.AdmittedAll U (c.inRoutine (kind name) params) body
      ∧ Stmt.AdmittedRoutines U c kind rest

end

/-! ## Accepted programs are admitted -/

variable {U : List Use} {c : Context}

mutual

theorem Expr.admitted : ∀ {e : Expr Unit}, e.check c = [] → e.uses c ⊆ U → e.Proper →
    e.Admitted U c
  | .literal _, _, _, _ => trivial
  | .array _, hc, hu, hp => Expr.admittedAll hc hu hp
  | .grouping inner, hc, hu, hp => Expr.admitted (e := inner) hc hu hp
  | .unary _ operand, hc, hu, hp => Expr.admitted (e := operand) hc hu hp
  | .binary _ _ _, hc, hu, hp | .logical _ _ _, hc, hu, hp => by
      have ⟨hcl, hcr⟩ := List.append_eq_nil_iff.mp hc
      have ⟨hul, hur⟩ := List.append_subset.mp hu
      exact ⟨Expr.admitted hcl hul hp.1, Expr.admitted hcr hur hp.2⟩
  | .conditional _ _ _, hc, hu, hp => by
      have ⟨hcl, hcn⟩ := List.append_eq_nil_iff.mp hc
      have ⟨hct, hcy⟩ := List.append_eq_nil_iff.mp hcl
      have ⟨hul, hun⟩ := List.append_subset.mp hu
      have ⟨hut, huy⟩ := List.append_subset.mp hul
      exact ⟨Expr.admitted hct hut hp.1, Expr.admitted hcy huy hp.2.1,
        Expr.admitted hcn hun hp.2.2⟩
  | .variable _, hc, hu, hp => ⟨hp, hc, hu List.mem_cons_self⟩
  | .assign _ _, hc, hu, hp => by
      have ⟨huv, hur⟩ := List.append_subset.mp hu
      exact ⟨hp.1, hur List.mem_cons_self, Expr.admitted hc huv hp.2⟩
  | .step _ _, _, hu, hp => ⟨hp, hu List.mem_cons_self⟩
  | .call _ _ _, hc, hu, hp => by
      have ⟨hcf, hca⟩ := List.append_eq_nil_iff.mp hc
      have ⟨huf, hua⟩ := List.append_subset.mp hu
      exact ⟨Expr.admitted hcf huf hp.1, Expr.admittedAll hca hua hp.2⟩
  | .get object _ _, hc, hu, hp => Expr.admitted (e := object) hc hu hp
  | .set _ _ _ _, hc, hu, hp => by
      have ⟨hcv, hco⟩ := List.append_eq_nil_iff.mp hc
      have ⟨huv, huo⟩ := List.append_subset.mp hu
      exact ⟨Expr.admitted hco huo hp.1, Expr.admitted hcv huv hp.2⟩
  | .receiver _, hc, hu, hp | .inherited _ _, hc, hu, hp => ⟨hp, hc, hu List.mem_cons_self⟩

theorem Expr.admittedAll : ∀ {es : List (Expr Unit)}, Expr.checkAll c es = [] →
    Expr.usesAll c es ⊆ U → Expr.ProperAll es → Expr.AdmittedAll U c es
  | [], _, _, _ => trivial
  | _ :: _, hc, hu, hp => by
      have ⟨hce, hcr⟩ := List.append_eq_nil_iff.mp hc
      have ⟨hue, hur⟩ := List.append_subset.mp hu
      exact ⟨Expr.admitted hce hue hp.1, Expr.admittedAll hcr hur hp.2⟩

end

lemma Expr.admittedOption {value : Option (Expr Unit)} (hc : Expr.checkOption c value = [])
    (hu : Expr.usesOption c value ⊆ U) (hp : ∀ e ∈ value, e.Proper) :
    ∀ e ∈ value, e.Admitted U c := by
  rintro e rfl
  exact Expr.admitted hc hu (hp e rfl)

lemma Expr.admitted_var {name : Token} {value : Option (Expr Unit)}
    (hc : c.checkVar name value = []) (hu : Expr.usesOption (c.declare name) value ⊆ U)
    (hp : name.Declarable ∧ ∀ e ∈ value, e.Proper) :
    name.Declarable ∧ ∀ e ∈ value, e.Admitted U (c.declare name) :=
  ⟨hp.1, Expr.admittedOption (List.append_eq_nil_iff.mp hc).2 hu hp.2⟩

lemma ForStart.admitted {start : Option (ForStart Unit)} (hc : ForStart.check c start = [])
    (hu : ForStart.uses c start ⊆ U) (hp : ForStart.Proper start) : ForStart.Admitted U c start := by
  rcases start with _ | ⟨name, value⟩ | e
  · trivial
  · exact Expr.admitted_var hc hu hp
  · exact Expr.admitted hc hu hp

lemma Reference.admitted_superclass {name : Token} {superclass : Option (Reference Unit)}
    (hc : c.checkSuperclass name superclass = [])
    (hu : Reference.usesSuperclass c superclass ⊆ U)
    (hp : ∀ ref ∈ superclass, ref.name.Declarable) :
    ∀ ref ∈ superclass, (Expr.variable ref).Admitted U c := by
  rintro ref rfl
  exact ⟨hp ref rfl, (List.append_eq_nil_iff.mp hc).2, hu List.mem_cons_self⟩

mutual

theorem Stmt.admitted : ∀ {c : Context} {s : Stmt Unit}, s.check c = [] → s.uses c ⊆ U →
    s.Proper → s.Admitted U c
  | _, .expr _, hc, hu, hp => Expr.admitted hc hu hp
  | _, .echo _, hc, hu, hp => Expr.admitted hc hu hp
  | _, .var _ _, hc, hu, hp => Expr.admitted_var hc hu hp
  | _, .block _, hc, hu, hp => Stmt.admittedAll hc hu hp
  | _, .exit _ _, hc, hu, hp => Expr.admitted hc hu hp
  | _, .branch _ _ _, hc, hu, hp => by
      have ⟨hcl, hcn⟩ := List.append_eq_nil_iff.mp hc
      have ⟨hct, hcy⟩ := List.append_eq_nil_iff.mp hcl
      have ⟨hul, hun⟩ := List.append_subset.mp hu
      have ⟨hut, huy⟩ := List.append_subset.mp hul
      exact ⟨Expr.admitted hct hut hp.1, Stmt.admitted hcy huy hp.2.1,
        Stmt.admittedOption hcn hun hp.2.2⟩
  | _, .loop _ _, hc, hu, hp => by
      have ⟨hct, hcb⟩ := List.append_eq_nil_iff.mp hc
      have ⟨hut, hub⟩ := List.append_subset.mp hu
      exact ⟨Expr.admitted hct hut hp.1, Stmt.admitted hcb hub hp.2⟩
  | _, .forLoop _ _ _ _, hc, hu, hp => by
      have ⟨hc', hcb⟩ := List.append_eq_nil_iff.mp hc
      have ⟨hc'', hca⟩ := List.append_eq_nil_iff.mp hc'
      have ⟨hcs, hct⟩ := List.append_eq_nil_iff.mp hc''
      have ⟨hu', hub⟩ := List.append_subset.mp hu
      have ⟨hu'', hua⟩ := List.append_subset.mp hu'
      have ⟨hus, hut⟩ := List.append_subset.mp hu''
      exact ⟨ForStart.admitted hcs hus hp.1, Expr.admitted hct hut hp.2.1,
        Expr.admittedOption hca hua hp.2.2.1, Stmt.admitted hcb hub hp.2.2.2⟩
  | _, .step _ _, _, hu, hp => ⟨hp, hu List.mem_cons_self⟩
  | _, .jump _ _, _, _, _ => trivial
  | _, .routine ⟨_, _, _⟩, hc, hu, hp => by
      have ⟨_, hcb⟩ := List.append_eq_nil_iff.mp hc
      exact ⟨hp.1, hp.2.1, Stmt.admittedAll hcb hu hp.2.2⟩
  | _, .giveBack _ _, hc, hu, hp =>
      Expr.admittedOption (List.append_eq_nil_iff.mp hc).2 hu hp
  | _, .classDecl _ _ _ _ _ _, hc, hu, hp => by
      have ⟨hc', hcs⟩ := List.append_eq_nil_iff.mp hc
      have ⟨hc', hcset⟩ := List.append_eq_nil_iff.mp hc'
      have ⟨hc', hcget⟩ := List.append_eq_nil_iff.mp hc'
      have ⟨hc', hcm⟩ := List.append_eq_nil_iff.mp hc'
      have ⟨_, hcp⟩ := List.append_eq_nil_iff.mp hc'
      have ⟨hu', hus⟩ := List.append_subset.mp hu
      have ⟨hu', huset⟩ := List.append_subset.mp hu'
      have ⟨hu', huget⟩ := List.append_subset.mp hu'
      have ⟨hup, hum⟩ := List.append_subset.mp hu'
      obtain ⟨hn, hpp, hpm, hps, hpget, hpset, hget, hset⟩ := hp
      exact ⟨hn, Reference.admitted_superclass hcp hup hpp, Stmt.admittedRoutines hcm hum hpm,
        Stmt.admittedRoutines hcs hus hps, Stmt.admittedRoutines hcget huget hpget,
        Stmt.admittedRoutines hcset huset hpset, hget, hset⟩

theorem Stmt.admittedAll : ∀ {c : Context} {ss : List (Stmt Unit)}, Stmt.checkAll c ss = [] →
    Stmt.usesAll c ss ⊆ U → Stmt.ProperAll ss → Stmt.AdmittedAll U c ss
  | _, [], _, _, _ => trivial
  | _, _ :: _, hc, hu, hp => by
      have ⟨hcs, hcr⟩ := List.append_eq_nil_iff.mp hc
      have ⟨hus, hur⟩ := List.append_subset.mp hu
      exact ⟨Stmt.admitted hcs hus hp.1, Stmt.admittedAll hcr hur hp.2⟩

theorem Stmt.admittedOption : ∀ {c : Context} {s : Option (Stmt Unit)},
    Stmt.checkOption c s = [] → Stmt.usesOption c s ⊆ U → Stmt.ProperOption s →
    Stmt.AdmittedOption U c s
  | _, none, _, _, _ => trivial
  | _, some _, hc, hu, hp => Stmt.admitted hc hu hp

theorem Stmt.admittedRoutines : ∀ {c : Context} {kind : Token → BodyKind}
    {rs : List (Routine (Stmt Unit))}, Stmt.checkRoutines c kind rs = [] →
    Stmt.usesRoutines c kind rs ⊆ U → Stmt.ProperRoutines rs → Stmt.AdmittedRoutines U c kind rs
  | _, _, [], _, _, _ => trivial
  | _, _, ⟨_, _, _⟩ :: _, hc, hu, hp => by
      have ⟨hcb, hcr⟩ := List.append_eq_nil_iff.mp hc
      have ⟨hub, hur⟩ := List.append_subset.mp hu
      exact ⟨hp.1, Stmt.admittedAll (List.append_eq_nil_iff.mp hcb).2 hub hp.2.1,
        Stmt.admittedRoutines hcr hur hp.2.2⟩

end

end KScript

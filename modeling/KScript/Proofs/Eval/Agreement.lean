import KScript.Proofs.Eval.Objects

/-!
# Scopes and frames agree

The evaluator under a watch and the plain evaluator are tied, level by level: what one form of expression
or statement does with its parts keeps them together (`Tied.evalStep`, `Tied.execStep`), and so do all
levels (`Watch.tied`).  In particular at every moment at which a reference is evaluated the environment
mirrors the scopes of its place.
-/

namespace KScript

open Scope

variable {U : List Use} {C : Comparison U} {i j : Interp} {m : Machine} {env : Env} {c : Context}

/-! ## Class declarations -/

namespace Tied

lemma declareClass (h : Tied C i j) (hs : m.Sound U) (hc : c.Settled)
    (hmirror : m.frames.Mirror env c.scopes) {name : Token} {superclass : Option (Reference Unit)}
    {methods statics getters setters : List (Routine (Stmt Unit))}
    (hadmitted : (Stmt.classDecl name superclass methods statics getters setters).Admitted U c) :
    let inner := (c.bind name).inClass superclass
    let ms := Stmt.resolveRoutines inner.withReceiver methodKind methods
    let ss := Stmt.resolveRoutines inner (fun _ => .staticMethod) statics
    let gs := Stmt.resolveRoutines inner.withReceiver (fun _ => .method) getters
    let ts := Stmt.resolveRoutines inner.withReceiver (fun _ => .method) setters
    Tie C m (i.declareClass env name (superclass.map (·.resolve (c.bind name))) ms ss gs ts)
      (j.declareClass env name (superclass.map (·.resolve (c.bind name))) ms ss gs ts)
      fun _ next => next.frames.Mirror env (c.bind name).scopes := by
  intro inner ms ss gs ts
  obtain ⟨hname, hsuper, hms, hss, hgs, hts, hgetters, hsetters⟩ := hadmitted
  have hbind := hc.bind hname
  refine Tie.bind (Tie.define hs hmirror hname fun _ _ _ => .scalar _) ?_
  intro _ m₁ hs₁ _ hmirror₁
  refine Tie.bind (h.superclass hs₁ hbind hmirror₁ hsuper) ?_
  rintro parent m₂ hs₂ hle₂ ⟨hsome, hparent⟩
  refine Tie.bind (classEnv_tie hs₂ (hmirror₁.mono hle₂) hsome hparent) ?_
  intro env' m₃ hs₃ hle₃ hinner
  -- every routine is a closure over the environment of the class
  have hmethod : ∀ kind rs, Stmt.AdmittedRoutines U inner.withReceiver kind rs →
      ∀ decl ∈ Stmt.resolveRoutines inner.withReceiver kind rs, ∀ ident b,
        Closure.FitsMethod U m₃.frames ⟨ident, decl, env', b⟩ :=
    fun kind rs hrs decl hdecl ident b =>
      ⟨inner, hbind.withReceiver superclass, (hrs.closure decl hdecl).2 ident env' b, hinner⟩
  have hstatic : ∀ decl ∈ ss, ∀ ident, Closure.Fits U m₃.frames ⟨ident, decl, env', false⟩ :=
    fun decl hdecl ident =>
      ⟨inner, hbind.inClass superclass, (hss.closure decl hdecl).2 ident env' false, hinner,
        fun hcons => by cases hcons⟩
  have hempty : ∀ (P : Closure → Prop) (key : String) (closure : Closure),
      (Table.empty : Table Closure).find? key = some closure → P closure :=
    fun _ _ _ hfind => by cases hfind
  refine Tie.bind (closures_tie hs₃ (fun decl hdecl ident => hmethod _ _ hms decl hdecl ident _)
    (hempty (Closure.FitsMethod U m₃.frames))) ?_
  intro methods' m₄ hs₄ hle₄ hm
  refine Tie.bind (closures_tie hs₄ hstatic (hempty _)) ?_
  intro statics' m₅ hs₅ hle₅ hst
  refine Tie.bind (closures_tie (P := fun closure => closure.FitsMethod U m₃.frames
    ∧ closure.decl.params.length = 0) hs₅ ?_ (hempty _)) ?_
  · intro decl hdecl ident
    obtain ⟨⟨r, hr, hparams⟩, -⟩ := hgs.closure decl hdecl
    exact ⟨hmethod _ _ hgs decl hdecl ident _, hparams ▸ hgetters r hr⟩
  intro getters' m₆ hs₆ hle₆ hg
  refine Tie.bind (closures_tie (P := fun closure => closure.FitsMethod U m₃.frames
    ∧ closure.decl.params.length = 1) hs₆ ?_ (hempty _)) ?_
  · intro decl hdecl ident
    obtain ⟨⟨r, hr, hparams⟩, -⟩ := hts.closure decl hdecl
    exact ⟨hmethod _ _ hts decl hdecl ident _, hparams ▸ hsetters r hr⟩
  intro setters' m₇ hs₇ hle₇ ht
  have hle₃₇ : m₃.frames.Le m₇.frames := ((hle₄.trans hle₅).trans hle₆).trans hle₇
  have hle₂₇ : m₂.frames.Le m₇.frames := hle₃.trans hle₃₇
  refine Tie.bind (Tie.newIdent hs₇) ?_
  intro ident m₈ hs₈ hle₈ _
  refine Tie.bind (Tie.note hs₈ _) ?_
  intro _ m₉ hs₉ hle₉ _
  have hle₇₉ : m₇.frames.Le m₉.frames := hle₈.trans hle₉
  have hcls : ClassValue.Fits U m₉.frames
      ⟨⟨ident, name.lexeme, methods', statics', getters', setters'⟩,
        (parent.map (·.lineage)).getD []⟩ := by
    intro l hl
    rcases List.mem_cons.mp hl with rfl | hl
    · exact Layer.Fits.mono ⟨hm, hst, hg, ht⟩ (hle₃₇.trans hle₇₉)
    · cases parent with
      | none => cases hl
      | some cls => exact (hparent cls rfl l hl).mono (hle₂₇.trans hle₇₉)
  refine (Tie.assign hs₉ hname (.classValue hcls)).imp ?_
  intro _ next _ hle _
  exact hmirror₁.mono (((hle₂.trans hle₂₇).trans hle₇₉).trans hle)

end Tied

/-! ## Expressions -/

namespace Use

/-- The frame that the depth of a use leads to binds the name, unless it is pending. -/
lemma leads {u : Use} (hlegal : u.context.Legal) (hmirror : m.frames.Mirror env u.context.scopes)
    (hpending : u.context.scopes.isPending u.name.lexeme = true → u.name.Declarable →
      C.Natural (.crash (.unbound u.name.lexeme))) :
    Reference.Leads C m env ⟨u.name, u.depth⟩ := by
  intro d hd
  obtain ⟨address, haddress, hbinds⟩ := binds hlegal hmirror hd
  refine ⟨address, haddress, ?_⟩
  rcases hbinds with hbinds | ⟨hp, hdeclarable⟩
  · exact Or.inl hbinds
  · exact Or.inr (hpending hp hdeclarable)

end Use

/-- A use whose name is never pending: the watched run reads the variable as the plain one does. -/
lemma Tie.read {u : Use} (hs : m.Sound U) (hu : u ∈ U) (hlegal : u.context.Legal)
    (hmirror : m.frames.Mirror env u.context.scopes)
    (hready : u.context.scopes.isPending u.name.lexeme = true → ¬u.name.Declarable) :
    Tie C m
      (C.watch.before env (some (u.site, ⟨u.name, u.depth⟩)) >>= fun _ =>
        Reference.read ⟨u.name, u.depth⟩ env)
      (Reference.read ⟨u.name, u.depth⟩ env) fun v next => v.Fits U next.frames :=
  Tie.watch (Use.agrees hu hlegal hmirror fun hp hd => absurd hd (hready hp)) fun _ =>
    Reference.read_tie hs (Use.leads hlegal hmirror fun hp hd => absurd hd (hready hp))

lemma Value.Fits.of_scalar {v : Value} {frames : Frames Value} (h : ∃ literal, v = .scalar literal) :
    v.Fits U frames := by
  obtain ⟨literal, rfl⟩ := h
  exact .scalar literal

namespace Tied

/-- **What a form of expression does with its parts keeps tied evaluators together.** -/
theorem evalStep (h : Tied C i j) (hlegal : c.Legal) {e : Expr Unit} (he : e.Admitted U c)
    (hs : m.Sound U) (hmirror : m.frames.Mirror env c.scopes) :
    Tie C m (C.watch.before env (e.resolve c).reference? >>= fun _ => i.evalStep env (e.resolve c))
      (j.evalStep env (e.resolve c)) fun v next => v.Fits U next.frames := by
  cases e with
  | literal value => exact Tie.pure hs (.scalar value)
  | array items =>
      refine Tie.pure_bind_left (Tie.bind (h.evalAll hlegal he hs hmirror) ?_)
      intro vs next hs' hle hvs
      refine Tie.bind (Tie.newIdent hs') ?_
      intro ident last hs'' hle' _
      exact Tie.pure hs'' (.array fun v hv => (hvs v hv).mono hle')
  | grouping inner => exact Tie.pure_bind_left (h.eval (e := inner) hlegal he hs hmirror)
  | unary op operand =>
      refine Tie.pure_bind_left (Tie.bind (h.eval (e := operand) hlegal he hs hmirror) ?_)
      intro v next hs' hle hv
      exact Tie.orFail hs' op.line fun w hw => .of_scalar (Operator.unary_scalar hw)
  | binary left op right =>
      refine Tie.pure_bind_left (Tie.bind (h.eval hlegal he.1 hs hmirror) ?_)
      intro a next hs' hle _
      refine Tie.bind (h.eval hlegal he.2 hs' (hmirror.mono hle)) ?_
      intro b last hs'' _ _
      exact Tie.orFail hs'' op.line fun w hw => .of_scalar (Operator.binary_scalar hw)
  | logical left op right =>
      refine Tie.pure_bind_left (Tie.bind (h.eval hlegal he.1 hs hmirror) ?_)
      intro a next hs' hle ha
      split
      · exact Tie.pure hs' ha
      · exact h.eval hlegal he.2 hs' (hmirror.mono hle)
  | conditional condition yes no =>
      refine Tie.pure_bind_left (Tie.bind (h.test hlegal he.1 hs hmirror) ?_)
      intro holds next hs' hle _
      split
      · exact h.eval hlegal he.2.1 hs' (hmirror.mono hle)
      · exact h.eval hlegal he.2.2 hs' (hmirror.mono hle)
  | «variable» ref =>
      obtain ⟨_, hcheck, hu⟩ := he
      refine Tie.read (u := ⟨c, .reading, ref.name⟩) hs hu hlegal hmirror ?_
      intro hp
      rw [Context.not_isPending_of_checkRead hcheck] at hp
      cases hp
  | assign ref value =>
      obtain ⟨hname, hu, hvalue⟩ := he
      refine Tie.watch (Use.agrees (u := ⟨c, .assign, ref.name⟩) hu hlegal hmirror
        fun hp _ => ⟨hp, Or.inl rfl⟩) ?_
      intro _
      refine Tie.bind (h.eval hlegal hvalue hs hmirror) ?_
      intro v next hs' hle hv
      refine Tie.bind (Reference.write_tie hs' hname ?_ hv) ?_
      · intro d hd
        obtain ⟨address, haddress, -⟩ :=
          Use.binds (u := ⟨c, .assign, ref.name⟩) hlegal hmirror hd
        exact ⟨address, haddress⟩
      · intro _ last hs'' hle' _
        exact Tie.pure hs'' (hv.mono hle')
  | step direction ref =>
      obtain ⟨hname, hu⟩ := he
      have hagrees : Moment.Agrees U ⟨.stepExpr direction, ref.resolve c, env, m⟩ :=
        Use.agrees (u := ⟨c, .stepExpr direction, ref.name⟩) hu hlegal hmirror
          fun hp _ => ⟨hp, Or.inr ⟨direction, rfl⟩⟩
      refine Tie.watch hagrees ?_
      intro hwatch
      refine Reference.step_tie hs hname (Use.leads (u := ⟨c, .stepExpr direction, ref.name⟩) hlegal
        hmirror ?_) direction .expression
      intro hp _
      exact C.unbound _ _ hagrees ⟨_, hu, ⟨rfl, rfl, rfl⟩,
        Or.inl ⟨⟨direction, rfl⟩, ⟨hp, Or.inr ⟨direction, rfl⟩⟩, rfl⟩⟩ hwatch
  | call callee paren args =>
      refine Tie.pure_bind_left (Tie.bind (h.eval hlegal he.1 hs hmirror) ?_)
      intro target next hs' hle htarget
      refine Tie.bind (h.evalAll hlegal he.2 hs' (hmirror.mono hle)) ?_
      intro values last hs'' hle' hvalues
      exact h.call hs'' (htarget.mono hle') hvalues paren.line
  | get object name inside =>
      refine Tie.pure_bind_left (Tie.bind (h.eval (e := object) hlegal he hs hmirror) ?_)
      intro target next hs' _ htarget
      exact h.getProperty hs' htarget name inside
  | set object name value inside =>
      refine Tie.pure_bind_left (Tie.bind (h.eval hlegal he.1 hs hmirror) ?_)
      intro target next hs' hle htarget
      cases htarget with
      | object hobject =>
          refine Tie.bind (h.eval hlegal he.2 hs' (hmirror.mono hle)) ?_
          intro v last hs'' hle' hv
          refine Tie.bind (h.writeProperty hs'' (hobject.mono hle') name hv inside) ?_
          intro _ _ hs₃ hle₃ _
          exact Tie.pure hs₃ (hv.mono hle₃)
      | _ => exact Tie.fail hs' _ _
  | receiver ref =>
      obtain ⟨hname, -, hu⟩ := he
      have href : ref.resolveReceiver c = ⟨ref.name, Use.depth ⟨c, .receiver, ref.name⟩⟩ := by
        unfold Use.depth Reference.resolveReceiver
        split <;> rfl
      show Tie C m (C.watch.before env (some (.receiver, ref.resolveReceiver c)) >>= fun _ =>
        (ref.resolveReceiver c).read env) ((ref.resolveReceiver c).read env) _
      rw [href]
      exact Tie.read (u := ⟨c, .receiver, ref.name⟩) hs hu hlegal hmirror
        fun _ hdeclarable => absurd hname hdeclarable.1
  | inherited ref method =>
      obtain ⟨hname, hcheck, hu⟩ := he
      have hagrees : Moment.Agrees U ⟨.inherited, ref.resolve c, env, m⟩ :=
        Use.agrees (u := ⟨c, .inherited, ref.name⟩) hu hlegal hmirror
          fun _ hdeclarable => absurd hname hdeclarable.2
      refine Tie.watch hagrees ?_
      intro hwatch
      refine Reference.inherited_tie hs hlegal hmirror hname hcheck ?_ method
      intro hstatic
      exact C.unbound _ _ hagrees ⟨_, hu, ⟨rfl, rfl, rfl⟩, Or.inr ⟨hstatic, rfl⟩⟩ hwatch

end Tied

/-! ## Statements -/

/-- A name that is only declared asks nothing of the frames. -/
lemma Frames.Mirror.declare {frames : Frames Value} (h : frames.Mirror env c.scopes) (name : Token) :
    frames.Mirror env (c.declare name).scopes := by
  have hscopes : (c.declare name).scopes = c.scopes.declare name.lexeme := rfl
  rw [hscopes]
  cases hc : c.scopes with
  | nil =>
      rw [hc] at h
      exact h
  | cons inner rest =>
      rw [hc] at h
      obtain ⟨address, outer, rfl, hlt, hnames⟩ := h.cons
      refine Frames.Mirror.push h.tail hlt ?_
      intro key hkey
      split at hkey
      · exact hnames key hkey
      · rw [Table.find?_insert] at hkey
        split at hkey
        · cases hkey
        · exact hnames key hkey

/-- A statement that declares nothing leaves the environment as it is. -/
lemma Tie.keeping {x y : Run Completion} (hmirror : m.frames.Mirror env c.scopes)
    (h : Tie C m x y fun completion next => completion.Fits U next.frames) :
    Tie C m x y fun completion next =>
      completion.Fits U next.frames ∧ next.frames.Mirror env c.scopes :=
  h.imp fun _ _ _ hle hcompletion => ⟨hcompletion, hmirror.mono hle⟩

lemma Tie.exitWith (hs : m.Sound U) (line : Nat) (v : Value) :
    Tie C m (Interp.exitWith line v) (Interp.exitWith line v) fun completion next =>
      completion.Fits U next.frames := by
  unfold Interp.exitWith
  split
  · split
    · refine Tie.bind (Tie.note hs _) ?_
      intro _ next hs' _ _
      exact Tie.error rfl hs' (C.exit _)
    · exact Tie.fail hs _ _
  · exact Tie.fail hs _ _

namespace Tied

/-- The declaration of a variable. -/
lemma declareVar (h : Tied C i j) (hc : c.Settled) {name : Token} {value : Option (Expr Unit)}
    (hadmitted : (Stmt.var name value).Admitted U c) (hs : m.Sound U)
    (hmirror : m.frames.Mirror env c.scopes) :
    Tie C m (i.execStep env ((Stmt.var name value).resolve c))
      (j.execStep env ((Stmt.var name value).resolve c)) fun completion next =>
        completion.Fits U next.frames ∧ next.frames.Mirror env (c.bind name).scopes := by
  obtain ⟨hname, hvalue⟩ := hadmitted
  refine Tie.bind (h.evalOption (hc.legal_declare hname) hvalue hs (hmirror.declare name)) ?_
  intro v next hs' hle hv
  refine Tie.bind (Tie.define hs' (hmirror.mono hle) hname fun _ hle' _ => hv.mono hle') ?_
  intro _ last hs'' _ hlast
  exact Tie.pure hs'' ⟨trivial, hlast⟩

/-- The first clause of a `for` loop. -/
lemma begin (h : Tied C i j) (hc : c.Settled) {start : Option (ForStart Unit)}
    (hadmitted : ForStart.Admitted U c start) (hs : m.Sound U)
    (hmirror : m.frames.Mirror env c.scopes) :
    Tie C m (i.begin env (start.map (ForStart.resolve c)))
      (j.begin env (start.map (ForStart.resolve c))) fun _ next =>
        next.frames.Mirror env (c.afterStart start).scopes := by
  rcases start with _ | ⟨name, value⟩ | e
  · exact Tie.pure hs hmirror
  · have hs' : (Stmt.var name value).Admitted U c := hadmitted
    exact Tie.bind (h.exec hc hs' hs hmirror) fun _ _ hs'' _ hq => Tie.pure hs'' hq.2
  · have hs' : (Stmt.expr e).Admitted U c := hadmitted
    exact Tie.bind (h.exec hc hs' hs hmirror) fun _ _ hs'' _ hq => Tie.pure hs'' hq.2

/-- **What a form of statement does with its parts keeps tied evaluators together.** -/
theorem execStep (h : Tied C i j) (hc : c.Settled) {s : Stmt Unit} (hadmitted : s.Admitted U c)
    (hs : m.Sound U) (hmirror : m.frames.Mirror env c.scopes) :
    Tie C m (C.watch.before env (s.resolve c).reference? >>= fun _ => i.execStep env (s.resolve c))
      (j.execStep env (s.resolve c)) fun completion next =>
        completion.Fits U next.frames ∧ next.frames.Mirror env (c.after s).scopes := by
  cases s with
  | expr e =>
      refine Tie.pure_bind_left (Tie.keeping hmirror ?_)
      exact Tie.bind (h.eval (e := e) hc.legal hadmitted hs hmirror)
        fun _ _ hs' _ _ => Tie.pure hs' trivial
  | echo e =>
      refine Tie.pure_bind_left (Tie.keeping hmirror ?_)
      refine Tie.bind (h.eval (e := e) hc.legal hadmitted hs hmirror) ?_
      intro v next hs' _ _
      exact Tie.bind (Tie.write hs' _) fun _ _ hs'' _ _ => Tie.pure hs'' trivial
  | var name value => exact Tie.pure_bind_left (h.declareVar hc hadmitted hs hmirror)
  | block body =>
      refine Tie.pure_bind_left (Tie.keeping hmirror ?_)
      refine Tie.bind (Tie.newFrame hs Table.fits_empty) ?_
      rintro address next hs' hle ⟨hlt, -⟩
      have hbody : Stmt.AdmittedAll U c.enter body := hadmitted
      exact h.execAll hc.enter hbody hs' ((hmirror.mono hle).enter hlt)
  | exit keyword code =>
      refine Tie.pure_bind_left (Tie.keeping hmirror ?_)
      refine Tie.bind (h.eval (e := code) hc.legal hadmitted hs hmirror) ?_
      intro v next hs' _ _
      exact Tie.exitWith hs' _ v
  | branch condition yes no =>
      obtain ⟨hcondition, hyes, hno⟩ := hadmitted
      refine Tie.pure_bind_left (Tie.keeping hmirror ?_)
      refine Tie.bind (h.test hc.legal hcondition hs hmirror) ?_
      intro holds next hs' hle _
      split
      · exact (h.exec hc hyes hs' (hmirror.mono hle)).imp fun _ _ _ _ hq => hq.1
      · cases no with
        | none => exact Tie.pure hs' trivial
        | some s => exact (h.exec (s := s) hc hno hs' (hmirror.mono hle)).imp fun _ _ _ _ hq => hq.1
  | loop condition body =>
      obtain ⟨hcondition, hbody⟩ := hadmitted
      refine Tie.pure_bind_left (Tie.keeping hmirror ?_)
      show Tie C m (Run.loop _ _ _ i.fuel) (Run.loop _ _ _ j.fuel) _
      rw [h.fuel]
      refine Tie.loop (m := m) ?_ ?_ ?_ j.fuel hs (Frames.Le.refl _)
      · exact fun next hs' hle => h.test hc.legal hcondition hs' (hmirror.mono hle)
      · exact fun next hs' hle => (h.exec hc hbody hs' (hmirror.mono hle)).imp fun _ _ _ _ hq => hq.1
      · exact fun next hs' _ => Tie.pure hs' trivial
  | forLoop start condition after body =>
      obtain ⟨hstart, hcondition, hafter, hbody⟩ := hadmitted
      refine Tie.pure_bind_left (Tie.keeping hmirror ?_)
      refine Tie.bind (Tie.newFrame hs Table.fits_empty) ?_
      rintro address m₁ hs₁ hle₁ ⟨hlt, -⟩
      refine Tie.bind (h.begin hc.enter hstart hs₁ ((hmirror.mono hle₁).enter hlt)) ?_
      intro _ m₂ hs₂ _ hinner
      have hc' := hc.enter.afterStart hstart
      rw [h.fuel]
      refine Tie.loop (m := m₂) ?_ ?_ ?_ j.fuel hs₂ (Frames.Le.refl _)
      · exact fun next hs' hle => h.test hc'.legal hcondition hs' (hinner.mono hle)
      · exact fun next hs' hle => (h.exec hc' hbody hs' (hinner.mono hle)).imp fun _ _ _ _ hq => hq.1
      · intro next hs' hle
        exact Tie.bind (h.evalOption hc'.legal hafter hs' (hinner.mono hle))
          fun _ _ hs'' _ _ => Tie.pure hs'' trivial
  | step direction ref =>
      obtain ⟨hname, hu⟩ := hadmitted
      have hready : c.scopes.isPending ref.name.lexeme ≠ true := by
        rw [hc.not_isPending]
        exact Bool.false_ne_true
      refine Tie.keeping hmirror (Tie.watch (Use.agrees (u := ⟨c, .stepStmt direction, ref.name⟩) hu
        hc.legal hmirror fun hp _ => absurd hp hready) ?_)
      intro _
      exact Tie.bind (Reference.step_tie hs hname (Use.leads
        (u := ⟨c, .stepStmt direction, ref.name⟩) hc.legal hmirror fun hp _ => absurd hp hready)
        direction .statement) fun _ _ hs' _ _ => Tie.pure hs' trivial
  | jump j keyword =>
      cases j with
      | breakLoop | continueLoop => exact Tie.pure_bind_left (Tie.keeping hmirror (Tie.pure hs trivial))
  | routine decl =>
      obtain ⟨name, params, body⟩ := decl
      obtain ⟨hname, hparams, hbody⟩ := hadmitted
      refine Tie.pure_bind_left (Tie.bind (Tie.newIdent hs) ?_)
      intro ident next hs' hle _
      refine Tie.bind (Tie.define hs' (hmirror.mono hle) hname ?_) ?_
      · intro frames _ hbound
        exact .routine ⟨c.bind name, hc.bind hname, ⟨.subroutine, body, rfl, hparams, hbody⟩, hbound,
          fun hcons => by cases hcons⟩
      · intro _ last hs'' _ hlast
        exact Tie.pure hs'' ⟨trivial, hlast⟩
  | giveBack keyword value =>
      refine Tie.pure_bind_left (Tie.keeping hmirror ?_)
      exact Tie.bind (h.evalOption hc.legal hadmitted hs hmirror) fun _ _ hs' _ hv => Tie.pure hs' hv
  | classDecl name superclass methods statics getters setters =>
      refine Tie.pure_bind_left ?_
      exact Tie.bind (h.declareClass hs hc hmirror hadmitted)
        fun _ _ hs' _ hq => Tie.pure hs' ⟨trivial, hq⟩

end Tied

/-! ## All levels -/

/-- **The evaluator under a watch and the plain evaluator are tied**, whatever the number of levels. -/
theorem Watch.tied (C : Comparison U) : ∀ fuel,
    Tied C ⟨fuel, C.watch.evalAt fuel, C.watch.execAt fuel⟩ (interpAt fuel)
  | 0 =>
    { fuel := rfl
      eval := fun _ _ hs _ => Tie.error rfl hs C.exhausted
      exec := fun _ _ hs _ => Tie.error rfl hs C.exhausted }
  | fuel + 1 =>
    { fuel := rfl
      eval := fun hlegal he hs hmirror => (Watch.tied C fuel).evalStep hlegal he hs hmirror
      exec := fun hc hadmitted hs hmirror => (Watch.tied C fuel).execStep hc hadmitted hs hmirror }

/-- A whole program runs alike under a watch and without one. -/
theorem Watch.run_tie (C : Comparison U) (fuel : Nat) : ∀ {program : Program Unit} {c : Context}
    {m : Machine}, c.Settled → Stmt.AdmittedAll U c program → m.Sound U →
    m.frames.Mirror Machine.globalEnv c.scopes →
    Tie C m (C.watch.run fuel (Stmt.resolveAll c program))
      (Program.run fuel (Stmt.resolveAll c program)) fun _ _ => True := by
  intro program
  induction program with
  | nil => exact fun _ _ hs _ => Tie.pure hs trivial
  | cons s rest ih =>
      intro c m hc hadmitted hs hmirror
      refine Tie.bind ((Watch.tied C fuel).exec hc hadmitted.1 hs hmirror) ?_
      intro _ next hs' _ hnext
      exact ih (hc.after hadmitted.1) hadmitted.2 hs' hnext.2

end KScript

import KScript.Proofs.Eval.References

/-!
# Routines under a watch

Two evaluators are tied if they evaluate every admitted expression and execute every admitted statement
alike, wherever the environment mirrors the scopes.  Then they also call every routine alike: the frame
that a call opens is that of the scope of its parameters, and the frame that a method gets with its
receiver is that of the scope of the receiver.
-/

namespace KScript

open Scope

/-- What a statement gives back fits. -/
def Completion.Fits (U : List Use) (frames : Frames Value) : Completion → Prop
  | .returned v => v.Fits U frames
  | _ => True

/-- The two evaluators do the same in every environment that mirrors the scopes. -/
structure Tied {U : List Use} (C : Comparison U) (i j : Interp) : Prop where
  fuel : i.fuel = j.fuel
  eval : ∀ {m : Machine} {c : Context} {env : Env} {e : Expr Unit}, c.Legal → e.Admitted U c →
    m.Sound U → m.frames.Mirror env c.scopes →
    Tie C m (i.eval env (e.resolve c)) (j.eval env (e.resolve c)) fun v next => v.Fits U next.frames
  exec : ∀ {m : Machine} {c : Context} {env : Env} {s : Stmt Unit}, c.Settled → s.Admitted U c →
    m.Sound U → m.frames.Mirror env c.scopes →
    Tie C m (i.exec env (s.resolve c)) (j.exec env (s.resolve c)) fun completion next =>
      completion.Fits U next.frames ∧ next.frames.Mirror env (c.after s).scopes

variable {U : List Use} {C : Comparison U} {i j : Interp} {m : Machine} {env : Env} {c : Context}

/-! ## Tables and scopes of parameters -/

lemma Table.fits_ofList {entries : List (String × Value)} {frames : Frames Value}
    (h : ∀ e ∈ entries, e.2.Fits U frames ∧ e.2.Suits e.1) : (Table.ofList entries).Fits U frames :=
  Table.ofList_induction Table.fits_empty fun _ ht e he => ht.insert (h e he).1 (h e he).2

lemma Table.contains_ofList {entries : List (String × Value)} {name : String}
    (h : name ∈ entries.map Prod.fst) : (Table.ofList entries).contains name = true := by
  have hfold : ∀ (es : List (String × Value)) (t : Table Value),
      t.contains name = true ∨ name ∈ es.map Prod.fst →
      (es.foldl (fun t entry => t.insert entry.1 entry.2) t).contains name = true := by
    intro es
    induction es with
    | nil => simp
    | cons e rest ih =>
        intro t ht
        refine ih _ ?_
        rw [Table.contains_insert]
        rcases ht with ht | ht
        · simp [ht]
        · rcases List.mem_cons.mp ht with rfl | ht
          · simp
          · exact Or.inr ht
  exact hfold entries Table.empty (Or.inr h)

/-- Parameters are declared in the innermost scope and are ready there. -/
lemma Scopes.defineAll_cons (names : List Token) (inner : Scope) (outer : Scopes) :
    ∃ scope : Scope, Scopes.defineAll (inner :: outer) names = scope :: outer
      ∧ ∀ key, scope.find? key = some true →
        inner.find? key = some true ∨ key ∈ names.map (·.lexeme) := by
  induction names generalizing inner with
  | nil => exact ⟨inner, rfl, fun _ h => Or.inl h⟩
  | cons p rest ih =>
      obtain ⟨scope, heq, hkeys⟩ :=
        ih ((if inner.contains p.lexeme then inner else inner.insert p.lexeme false).insert
          p.lexeme true)
      refine ⟨scope, heq, ?_⟩
      intro key hkey
      rcases hkeys key hkey with hfind | hmem
      · by_cases hp : p.lexeme = key
        · exact Or.inr (by simp [hp])
        · rw [Table.find?_insert, if_neg hp] at hfind
          split at hfind
          · exact Or.inl hfind
          · rw [Table.find?_insert, if_neg hp] at hfind
            exact Or.inl hfind
      · exact Or.inr (List.mem_cons_of_mem _ hmem)

namespace Frames.Mirror

variable {frames : Frames Value} {address : Address}

/-- A frame without demands is that of a new scope. -/
lemma enter (h : frames.Mirror env c.scopes) (hlt : address < frames.size) :
    frames.Mirror (address :: env) c.enter.scopes :=
  h.push hlt fun name hname => by simp at hname

lemma inRoutine (h : frames.Mirror env c.scopes) (hlt : address < frames.size) (kind : BodyKind)
    {params : List Token}
    (hparams : ∀ name ∈ params.map (·.lexeme), (frames.frame address).contains name = true) :
    frames.Mirror (address :: env) (c.inRoutine kind params).scopes := by
  obtain ⟨scope, heq, hkeys⟩ := Scopes.defineAll_cons params Table.empty c.scopes
  have hscopes : (c.inRoutine kind params).scopes = scope :: c.scopes := heq
  rw [hscopes]
  refine h.push hlt ?_
  intro name hname
  rcases hkeys name hname with hnone | hmem
  · simp at hnone
  · exact hparams name hmem

end Frames.Mirror

/-! ## Parts of expressions and statements -/

namespace Tied

lemma evalAll (h : Tied C i j) (hlegal : c.Legal) : ∀ {es : List (Expr Unit)} {m : Machine},
    Expr.AdmittedAll U c es → m.Sound U → m.frames.Mirror env c.scopes →
    Tie C m (i.evalAll env (Expr.resolveAll c es)) (j.evalAll env (Expr.resolveAll c es))
      fun vs next => (∀ v ∈ vs, v.Fits U next.frames) := by
  intro es
  induction es with
  | nil => exact fun _ hs _ => Tie.pure hs (by simp)
  | cons e rest ih =>
      intro m he hs hmirror
      refine Tie.bind (h.eval hlegal he.1 hs hmirror) ?_
      intro v next hs' hle hv
      refine Tie.bind (ih he.2 hs' (hmirror.mono hle)) ?_
      intro vs last hs'' hle' hvs
      exact Tie.pure hs'' (List.forall_mem_cons.mpr ⟨hv.mono hle', hvs⟩)

lemma test (h : Tied C i j) (hlegal : c.Legal) {e : Expr Unit} (he : e.Admitted U c)
    (hs : m.Sound U) (hmirror : m.frames.Mirror env c.scopes) :
    Tie C m (i.test env (e.resolve c)) (j.test env (e.resolve c)) fun _ _ => True :=
  Tie.bind (h.eval hlegal he hs hmirror) fun _ _ hs' _ _ => Tie.pure hs' trivial

lemma evalOption (h : Tied C i j) (hlegal : c.Legal) {e : Option (Expr Unit)}
    (he : ∀ x ∈ e, x.Admitted U c) (hs : m.Sound U) (hmirror : m.frames.Mirror env c.scopes) :
    Tie C m (i.evalOption env (e.map (Expr.resolve c))) (j.evalOption env (e.map (Expr.resolve c)))
      fun v next => v.Fits U next.frames := by
  cases e with
  | none => exact Tie.pure hs (.scalar _)
  | some e => exact h.eval hlegal (he e rfl) hs hmirror

lemma execAll (h : Tied C i j) : ∀ {ss : List (Stmt Unit)} {c : Context} {m : Machine},
    c.Settled → Stmt.AdmittedAll U c ss → m.Sound U → m.frames.Mirror env c.scopes →
    Tie C m (i.execAll env (Stmt.resolveAll c ss)) (j.execAll env (Stmt.resolveAll c ss))
      fun completion next => completion.Fits U next.frames := by
  intro ss
  induction ss with
  | nil => exact fun _ _ hs _ => Tie.pure hs trivial
  | cons s rest ih =>
      intro c m hc hadmitted hs hmirror
      refine Tie.bind (h.exec hc hadmitted.1 hs hmirror) ?_
      intro completion next hs' hle hcompletion
      cases completion with
      | normal => exact ih (hc.after hadmitted.1) hadmitted.2 hs' hcompletion.2
      | broke | continued => exact Tie.pure hs' trivial
      | returned v => exact Tie.pure hs' hcompletion.1

end Tied

/-- A loop, given what its parts do in every machine from its start on. -/
lemma Tie.loop {test test' : Run Bool} {body body' : Run Completion} {after after' : Run Unit}
    (htest : ∀ next : Machine, next.Sound U → m.frames.Le next.frames →
      Tie C next test test' fun _ _ => True)
    (hbody : ∀ next : Machine, next.Sound U → m.frames.Le next.frames →
      Tie C next body body' fun completion last => completion.Fits U last.frames)
    (hafter : ∀ next : Machine, next.Sound U → m.frames.Le next.frames →
      Tie C next after after' fun _ _ => True) (fuel : Nat) :
    ∀ {start : Machine}, start.Sound U → m.frames.Le start.frames →
      Tie C start (Run.loop test body after fuel) (Run.loop test' body' after' fuel)
        fun completion last => completion.Fits U last.frames := by
  induction fuel with
  | zero => exact fun hs _ => Tie.error rfl hs C.exhausted
  | succ fuel ih =>
      intro start hs hle
      refine Tie.bind (htest start hs hle) ?_
      intro holds next hs' hle' _
      cases holds with
      | false => exact Tie.pure hs' trivial
      | true =>
          have hle₁ := hle.trans hle'
          refine Tie.bind (hbody next hs' hle₁) ?_
          intro completion last hs'' hle'' hcompletion
          have hle₂ := hle₁.trans hle''
          have hagain : Tie C last (after >>= fun _ => Run.loop test body after fuel)
              (after' >>= fun _ => Run.loop test' body' after' fuel)
              fun completion last => completion.Fits U last.frames :=
            Tie.bind (hafter last hs'' hle₂) fun _ _ hs₃ hle₃ _ => ih hs₃ (hle₂.trans hle₃)
          cases completion with
          | normal => exact hagain
          | continued => exact hagain
          | broke => exact Tie.pure hs'' trivial
          | returned v => exact Tie.pure hs'' hcompletion

/-! ## Calls -/

lemma Closure.bind_tie (hs : m.Sound U) {closure : Closure} (h : closure.FitsMethod U m.frames)
    {receiver : Object} (hreceiver : receiver.cls.Fits U m.frames) :
    Tie C m (closure.bind receiver) (closure.bind receiver) fun bound next =>
      bound.Fits U next.frames ∧ bound.decl = closure.decl := by
  obtain ⟨c, hc, hbody, hmirror⟩ := h
  have hobject : (Value.object receiver).Suits thisName :=
    ⟨fun _ => ⟨receiver, rfl⟩, fun heq => absurd heq (by decide)⟩
  refine Tie.bind (Tie.newFrame hs (Table.fits_singleton (.object hreceiver) hobject)) ?_
  rintro address next hs' hle ⟨hlt, hframe⟩
  refine Tie.bind (Tie.newIdent hs') ?_
  intro ident last hs'' hle' _
  refine Tie.pure hs'' ⟨⟨c.withReceiver, hc, hbody, ?_, fun _ => ⟨c.scopes, rfl⟩⟩, rfl⟩
  have hnames : ∀ name, (Table.singleton thisName true).find? name = some true →
      (next.frames.frame address).contains name = true := by
    intro name hname
    rw [hframe]
    simp only [Table.singleton, Table.find?, Table.lookup, Table.contains] at hname ⊢
    split at hname
    · next heq => simp [heq]
    · cases hname
  exact ((hmirror.mono hle).push hlt hnames).mono hle'

namespace Tied

lemma invoke (h : Tied C i j) (hs : m.Sound U) {closure : Closure} (hfits : closure.Fits U m.frames)
    {args : List Value} (hargs : ∀ v ∈ args, v.Fits U m.frames)
    (hcount : args.length = closure.decl.params.length) :
    Tie C m (i.invoke closure args) (j.invoke closure args) fun v next => v.Fits U next.frames := by
  obtain ⟨c, hc, ⟨kind, body, hbody, hparams, hadmitted⟩, hmirror, hconstructor⟩ := hfits
  have hbindings : (Table.ofList ((closure.decl.params.map (·.lexeme)).zip args)).Fits U m.frames := by
    refine Table.fits_ofList ?_
    rintro ⟨name, v⟩ hmem
    have ⟨hname, hv⟩ := List.of_mem_zip hmem
    obtain ⟨p, hp, rfl⟩ := List.mem_map.mp hname
    exact ⟨hargs v hv, (hparams p hp).suits v⟩
  refine Tie.bind (Tie.newFrame hs hbindings) ?_
  rintro address next hs' hle ⟨hlt, hframe⟩
  have hinner : next.frames.Mirror (address :: closure.env)
      (c.inRoutine kind closure.decl.params).scopes := by
    refine (hmirror.mono hle).inRoutine hlt kind ?_
    intro name hname
    rw [hframe]
    refine Table.contains_ofList ?_
    rwa [List.map_fst_zip (by simp [hcount])]
  rw [hbody]
  refine Tie.bind (h.execAll (hc.inRoutine kind hparams) hadmitted hs' hinner) ?_
  intro completion last hs'' hle' hcompletion
  by_cases hcons : closure.isConstructor = true
  · -- the innermost frame around the body is that of the receiver
    obtain ⟨outer, hscopes⟩ := hconstructor hcons
    rw [hscopes] at hmirror
    obtain ⟨a, rest, henv, -, hnames⟩ := (hmirror.mono (hle.trans hle')).cons
    obtain ⟨v, hfind⟩ := Table.contains_iff.mp (hnames thisName rfl)
    rw [if_pos hcons]
    refine Tie.get_bind ?_
    have hget : last.frames.getAt closure.env 0 thisName = .ok v := by
      rw [henv]
      simp [Frames.getAt, hfind]
    rw [hget]
    exact Tie.pure hs'' (hs''.frames a _ v hfind).1
  · rw [if_neg hcons]
    cases completion with
    | returned v => exact Tie.pure hs'' hcompletion
    | _ => exact Tie.pure hs'' (.scalar _)

lemma invokeOn (h : Tied C i j) (hs : m.Sound U) {closure : Closure}
    (hfits : closure.FitsMethod U m.frames) {receiver : Object}
    (hreceiver : receiver.cls.Fits U m.frames) {args : List Value}
    (hargs : ∀ v ∈ args, v.Fits U m.frames) (hcount : args.length = closure.decl.params.length) :
    Tie C m (i.invokeOn closure receiver args) (j.invokeOn closure receiver args) fun v next =>
      v.Fits U next.frames := by
  refine Tie.bind (Closure.bind_tie hs hfits hreceiver) ?_
  rintro bound next hs' hle ⟨hbound, hdecl⟩
  exact h.invoke hs' hbound (fun v hv => (hargs v hv).mono hle) (hdecl ▸ hcount)

end Tied

end KScript

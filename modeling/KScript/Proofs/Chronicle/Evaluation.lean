import KScript.Proofs.Chronicle.Operations
import KScript.Proofs.Walk.Operations

/-!
# Chronicles follow the evaluator

The chronicle of a phrase is put together like its evaluation.  So a scribe that follows an evaluator on the
parts of a phrase follows it on the phrase, and what the phrase gives has its law (`Scribe.Keeps.evalStep`,
`Scribe.Keeps.execStep`).  With any number of levels the chronicle follows the run (`Chronicle.keeps`).
-/

namespace KScript

open Chronicle

/-- From every sound state the scribe follows the evaluator, and enters what a phrase gives. -/
structure Scribe.Keeps (k : Scribe) (i : Interp) : Prop where
  fuel : k.fuel = i.fuel
  eval : ∀ {s : Annals} {env : Env}, s.Sound → s.Sees env → ∀ e : Expr Depth,
    Follows s (k.eval env e) (i.eval env e) fun v t => Last t.past (.gave e v)
  exec : ∀ {s : Annals} {env : Env}, s.Sound → s.Sees env → ∀ stmt : Stmt Depth,
    Follows s (k.exec env stmt) (i.exec env stmt) fun completion t => Last t.past (.ran stmt completion)

variable {k : Scribe} {i : Interp} {s : Annals} {env : Env}

/-! ## Completions -/

namespace Completion

variable {past : List Entry}

@[simp] lemma told_normal : Told past .normal := by rintro _ ⟨⟩

/-- The latest statement has ended like that. -/
lemma told_of_last {stmt : Stmt Depth} {completion : Completion} (h : Last past (.ran stmt completion)) :
    completion.Told past := by
  rintro v rfl
  exact ⟨stmt, h⟩

/-- A statement that ends as the latest one has ended. -/
lemma Told.ends {stmt : Stmt Depth} {completion : Completion} (h : completion.Told past)
    (hlawful : Lawful past)
    (hreturns : ∀ v, (∃ part, Last past (.ran part (.returned v))) → stmt.Returns past v)
    (hdeclares : stmt.Declares past) : stmt.Ends past completion := by
  cases completion with
  | normal => exact hdeclares
  | returned v =>
      obtain ⟨part, hlast⟩ := h v rfl
      exact ⟨hlawful.stems_of_ran hlast.mem, hreturns v ⟨part, hlast⟩⟩
  | _ => trivial

end Completion

/-- What the items of a list give is given. -/
lemma Value.given_of_forall₂ {past : List Entry} {es : List (Expr Depth)} {vs : List Value}
    (h : es.Forall₂ (fun e v => .gave e v ∈ past) vs) : ∀ v ∈ vs, v.Given past := by
  induction h with
  | nil => exact List.forall_mem_nil _
  | cons hgave _ ih => exact List.forall_mem_cons.mpr ⟨⟨_, hgave⟩, ih⟩

namespace Scribe.Keeps

lemma evalAll (h : k.Keeps i) (hs : s.Sound) (henv : s.Sees env) (es : List (Expr Depth)) :
    Follows s (k.evalAll env es) (i.evalAll env es) fun vs t =>
      es.Forall₂ (fun e v => .gave e v ∈ t.past) vs := by
  induction es generalizing s with
  | nil => exact .pure hs .nil
  | cons e rest ih =>
      refine .bind (h.eval hs henv e) fun v t hle ht hv => ?_
      refine .bind (ih ht (henv.mono hle)) fun vs u hle' hu hvs => .pure hu ?_
      exact .cons (hle'.past.subset hv.mem) hvs

lemma test (h : k.Keeps i) (hs : s.Sound) (henv : s.Sees env) (e : Expr Depth) :
    Follows s (k.test env e) (i.test env e) fun _ _ => True :=
  .bind (h.eval hs henv e) fun _ _ _ ht _ => .pure ht trivial

lemma evalOption (h : k.Keeps i) (hs : s.Sound) (henv : s.Sees env) (e : Option (Expr Depth)) :
    Follows s (k.evalOption env e) (i.evalOption env e) fun v t =>
      v.Stems t.past ∧ (∀ part, e = some part → Last t.past (.gave part v)) ∧ (e = none → v = .zilch) := by
  cases e with
  | none => exact .pure hs ⟨Value.stems_scalar _, by simp, fun _ => rfl⟩
  | some e =>
      refine (h.eval hs henv e).imp fun v t _ ht hv => ⟨ht.lawful.stems_of_gave hv.mem, ?_, by simp⟩
      rintro _ ⟨⟩
      exact hv

lemma execAll (h : k.Keeps i) (hs : s.Sound) (henv : s.Sees env) (ss : List (Stmt Depth)) :
    Follows s (k.execAll env ss) (i.execAll env ss) fun completion t => completion.Told t.past := by
  induction ss generalizing s with
  | nil => exact .pure hs (by simp)
  | cons stmt rest ih =>
      refine .bind (h.exec hs henv stmt) fun completion t hle ht hlast => ?_
      cases completion with
      | normal => exact ih ht (henv.mono hle)
      | _ => exact .pure ht (Completion.told_of_last hlast)

/-! ## Calls -/

lemma invoke (h : k.Keeps i) (hs : s.Sound) {c : Closure} (hc : (Value.routine c).Stems s.past)
    {args : List Value} (hargs : ∀ v ∈ args, v.Given s.past) :
    Follows s (k.invoke c args) (i.invoke c args) fun v t => Last t.past (.left c v) := by
  have hbindings : ∀ binding ∈ (c.decl.params.map (·.lexeme)).zip args, binding.2.Stems s.past :=
    fun binding hb => hs.lawful.stems_of_given (hargs binding.2 (List.of_mem_zip hb).2)
  refine .bind (.newFrame hs hbindings) fun address t hle ht ⟨hpast, haddress⟩ => ?_
  have hlaw : (Entry.entered c args).Law t.past :=
    ⟨hc.mono hle.past, fun v hv => (hargs v hv).mono hle.past, address, hpast ▸ List.prefix_append _ _⟩
  have henv : t.Sees (address :: c.env) :=
    .cons (fun a ha => hle.has _ ((hs.issued_of_stems hc).2 a ha)) haddress
  refine .log ht trivial hlaw fun hadd => ?_
  refine .bind (h.execAll hadd (henv.mono (.add t _)) c.decl.body) fun completion u _ hu htold => ?_
  exact .logged (result_follows hu c htold) (fun _ => trivial) fun _ _ _ hleaves => hleaves

lemma invokeOn (h : k.Keeps i) (hs : s.Sound) {c : Closure} (hc : (Value.routine c).Stems s.past)
    {o : Object} (ho : (Value.object o).Stems s.past) {args : List Value}
    (hargs : ∀ v ∈ args, v.Given s.past) :
    Follows s (k.invokeOn c o args) (i.invokeOn c o args) fun v t =>
      ∃ b : Closure, b.decl = c.decl ∧ Last t.past (.left b v) := by
  refine .bind (bindMethod_follows hs hc ho) fun b t hle ht ⟨hdecl, hmade⟩ => ?_
  refine (h.invoke ht (.inr ⟨_, hmade.mem⟩) fun v hv => (hargs v hv).mono hle.past).imp ?_
  exact fun v u _ _ hleft => ⟨b, hdecl, hleft⟩

/-- The object that a construction gives was made first of all. -/
lemma construct (h : k.Keeps i) (hs : s.Sound) {cls : ClassValue}
    (hcls : (Value.classValue cls).Stems s.past) {args : List Value}
    (hargs : ∀ v ∈ args, v.Given s.past) :
    Follows s (k.construct cls args) (i.construct cls args) fun v t =>
      nth t.past s.past.length = some (.made (.construction cls) v) := by
  refine .bind (.newObject hs hcls) fun o t hle ht hpast => ?_
  have hnth : nth t.past s.past.length = some (.made (.construction cls) (.object o)) := by
    rw [hpast]
    exact nth_length
  cases hconstructor : cls.constructor? with
  | none => exact .pure ht hnth
  | some c =>
      have ho : (Value.object o).Stems t.past := .inr ⟨_, hpast ▸ List.mem_cons_self⟩
      have hc := (hs.lawful.stems_of_contains hcls (ClassValue.contains_method hconstructor)).mono hle.past
      refine .bind (h.invokeOn ht hc ho fun v hv => (hargs v hv).mono hle.past) fun _ u hle' hu _ => ?_
      exact .pure hu (nth_mono hle'.past hnth)

lemma invokeCallable (h : k.Keeps i) (hs : s.Sound) {callee : Value} (hcallee : callee.Stems s.past)
    {callable : Callable} (hcallable : Callable.ofValue? callee = some callable) {args : List Value}
    (hargs : ∀ v ∈ args, v.Given s.past) (line : Nat) {since : Nat}
    (hsince : s.past.length = since + 1) :
    Follows s (k.invokeCallable callable args line) (i.invokeCallable callable args line) fun v t =>
      callee.Answers t.past since v := by
  cases callee with
  | native n =>
      cases hcallable
      exact (Follows.quiet hs (.invokeNative n args line)).imp fun _ _ _ _ hv => hv.2
  | routine c =>
      cases hcallable
      exact h.invoke hs hcallee hargs
  | classValue cls =>
      cases hcallable
      have hconstruct := h.construct hs hcallee hargs
      rw [hsince] at hconstruct
      exact hconstruct
  | _ => cases hcallable

lemma call (h : k.Keeps i) (hs : s.Sound) {callee : Value} (hcallee : callee.Given s.past)
    {args : List Value} (hargs : ∀ v ∈ args, v.Given s.past) (line : Nat) :
    Follows s (k.call callee args line) (i.call callee args line) fun v t =>
      ∃ since, Last t.past (.came since callee v) := by
  unfold Scribe.call
  cases hcallable : Callable.ofValue? callee with
  | none =>
      simp only [Interp.call, hcallable]
      exact .fail hs _ _
  | some callable =>
      by_cases htakes : Interp.takes callable.arity args.length = true
      · rw [Interp.call_eq i line hcallable htakes, Interp.listedCall_eq]
        simp only [htakes, if_true, bind_assoc]
        refine .bind (.quiet hs (.pushCall _)) fun _ t hle ht _ => ?_
        refine .bind (.quiet ht (.begin callable args line)) fun _ u hle' hu _ => ?_
        have hgrown : s.past <:+ u.past := (hle.trans hle').past
        have hlaw : (Entry.called callee args).Law u.past :=
          ⟨hcallee.mono hgrown, fun v hv => (hargs v hv).mono hgrown⟩
        refine .record hu trivial hlaw fun hadd => ?_
        have hbelow : u.past <:+ (u.add (.called callee args)).past := List.suffix_cons _ _
        refine .bind (h.invokeCallable hadd (hadd.lawful.stems_of_given (hlaw.1.mono hbelow)) hcallable
          (fun v hv => (hlaw.2 v hv).mono hbelow) line rfl) fun result w hle'' hw hanswers => ?_
        refine .log hw trivial ⟨⟨args, nth_mono hle''.past nth_length⟩, hanswers⟩ fun hcame => ?_
        refine .bind (.quiet hcame .popCall) fun _ x _ hx hpast => ?_
        refine .bind (.quiet hx (.note _)) fun _ y _ hy hpast' => .pure hy ⟨u.past.length, ?_⟩
        rw [hpast'.1, hpast.1]
        exact last_cons.mpr rfl
      · simp only [Interp.call, hcallable, htakes]
        exact .fail hs _ _

/-! ## Properties -/

lemma readProperty (h : k.Keeps i) (hs : s.Sound) {o : Object} (ho : (Value.object o).Stems s.past)
    (name : Token) (inside : Bool) :
    Follows s (k.readProperty o name inside) (i.readProperty o name inside) fun v t =>
      (Value.object o).Yields t.past name.lexeme v := by
  have hread := readField_follows hs ho name fun c hc =>
    hs.lawful.stems_of_class ho (ClassValue.contains_method hc)
  unfold Scribe.readProperty Interp.readProperty
  cases inside with
  | true => exact hread
  | false =>
      cases hgetter : o.cls.getter? name.lexeme with
      | some getter =>
          have hc := hs.lawful.stems_of_class ho (ClassValue.contains_getter hgetter)
          refine (h.invokeOn hs hc ho (List.forall_mem_nil _)).imp ?_
          rintro v t _ _ ⟨b, hdecl, hleft⟩
          exact .inr (.inr ⟨getter, b, hgetter, hdecl, hleft⟩)
      | none =>
          cases o.cls.setter? name.lexeme with
          | some setter => exact .fail hs _ _
          | none => exact hread

lemma getProperty (h : k.Keeps i) (hs : s.Sound) {target : Value} (htarget : target.Stems s.past)
    (name : Token) (inside : Bool) :
    Follows s (k.getProperty target name inside) (i.getProperty target name inside) fun v t =>
      target.Yields t.past name.lexeme v := by
  cases target with
  | object o => exact h.readProperty hs htarget name inside
  | classValue cls =>
      simp only [Scribe.getProperty, Interp.getProperty]
      cases hstatic : cls.static? name.lexeme with
      | some c => exact .pure hs ⟨c, hstatic, rfl⟩
      | none => exact .fail hs _ _
  | _ => exact .fail hs _ _

lemma writeProperty (h : k.Keeps i) (hs : s.Sound) {o : Object} (ho : (Value.object o).Stems s.past)
    (name : Token) {v : Value} (hv : v.Given s.past) (inside : Bool) :
    Follows s (k.writeProperty o name v inside) (i.writeProperty o name v inside) fun _ t =>
      Last t.past (.put (.object o.ident) name.lexeme v)
        ∨ ∃ setter c w, o.cls.setter? name.lexeme = some setter ∧ c.decl = setter.decl
          ∧ Last t.past (.left c w) := by
  have hwrite := (writeField_follows hs ho name (hs.lawful.stems_of_given hv) inside).imp
    fun _ t _ _ hput => Or.inl (b := ∃ setter c w, o.cls.setter? name.lexeme = some setter
      ∧ c.decl = setter.decl ∧ Last t.past (.left c w)) hput
  unfold Scribe.writeProperty Interp.writeProperty
  cases inside with
  | true => exact hwrite
  | false =>
      cases hsetter : o.cls.setter? name.lexeme with
      | some setter =>
          have hc := hs.lawful.stems_of_class ho (ClassValue.contains_setter hsetter)
          have hargs : ∀ w ∈ [v], w.Given s.past := List.forall_mem_singleton.mpr hv
          refine .bind (h.invokeOn hs hc ho hargs) fun w t _ ht ⟨b, hdecl, hleft⟩ => .pure ht ?_
          exact .inr ⟨setter, b, w, rfl, hdecl, hleft⟩
      | none =>
          rw [hsetter] at hwrite
          cases o.cls.getter? name.lexeme with
          | some getter => exact .fail hs _ _
          | none => exact hwrite

/-! ## Expressions -/

/-- **What an expression gives has its law.** -/
theorem evalStep (h : k.Keeps i) (hs : s.Sound) (henv : s.Sees env) (e : Expr Depth) :
    Follows s (k.evalStep env e) (i.evalStep env e) fun v t => (Entry.gave e v).Law t.past := by
  cases e with
  | literal value => exact .pure hs ⟨Value.stems_scalar _, rfl⟩
  | array items =>
      refine .bind (h.evalAll hs henv items) fun vs t _ ht hvs => ?_
      have hitems : ∀ part ∈ vs, part.Stems t.past :=
        fun part hpart => ht.lawful.stems_of_given (Value.given_of_forall₂ hvs part hpart)
      refine .bind (.event ht ⟨_, vs, rfl, hvs⟩ rfl hitems) fun ident u _ hu hmade => .pure hu ?_
      have hlast : Last u.past (.made (.array items) (.array ident vs)) := by
        rw [hmade]
        exact last_cons.mpr rfl
      exact ⟨.inr ⟨_, hlast.mem⟩, hlast⟩
  | grouping inner =>
      exact (h.eval hs henv inner).imp fun v t _ ht hv => ⟨ht.lawful.stems_of_gave hv.mem, hv⟩
  | unary op operand =>
      refine .bind (h.eval hs henv operand) fun a t _ ht ha => ?_
      refine (Follows.quiet ht (.orFail op.line _)).imp fun v u _ _ ⟨hpast, hresult⟩ => ?_
      obtain ⟨literal, rfl⟩ := Operator.unary_scalar hresult
      exact ⟨Value.stems_scalar _, a, hpast ▸ ha, hresult⟩
  | binary left op right =>
      refine .bind (h.eval hs henv left) fun a t hle ht ha => ?_
      refine .bind (h.eval ht (henv.mono hle) right) fun b u hle' hu hb => ?_
      refine (Follows.quiet hu (.orFail op.line _)).imp fun v w _ _ ⟨hpast, hresult⟩ => ?_
      obtain ⟨literal, rfl⟩ := Operator.binary_scalar hresult
      exact ⟨Value.stems_scalar _, a, b, hpast ▸ hle'.past.subset ha.mem, hpast ▸ hb, hresult⟩
  | logical left op right =>
      refine .bind (h.eval hs henv left) fun a t hle ht ha => ?_
      cases Interp.settles op a with
      | true => exact .pure ht ⟨ht.lawful.stems_of_gave ha.mem, .inl ha⟩
      | false =>
          refine (h.eval ht (henv.mono hle) right).imp fun v u _ hu hv => ?_
          exact ⟨hu.lawful.stems_of_gave hv.mem, .inr hv⟩
  | conditional condition yes no =>
      refine .bind (h.test hs henv condition) fun holds t hle ht _ => ?_
      cases holds with
      | true =>
          refine (h.eval ht (henv.mono hle) yes).imp fun v u _ hu hv => ?_
          exact ⟨hu.lawful.stems_of_gave hv.mem, .inl hv⟩
      | false =>
          refine (h.eval ht (henv.mono hle) no).imp fun v u _ hu hv => ?_
          exact ⟨hu.lawful.stems_of_gave hv.mem, .inr hv⟩
  | «variable» ref =>
      refine (readRef_follows hs ref env).imp fun v t _ ht ⟨cell, hgot⟩ => ?_
      exact ⟨ht.lawful.stems_of_got hgot.mem, cell, hgot⟩
  | assign ref value =>
      refine .bind (h.eval hs henv value) fun v t hle ht hv => ?_
      have hstems := ht.lawful.stems_of_gave hv.mem
      refine .bind (writeRef_follows ht (henv.mono hle) ref hstems) fun _ u hle' hu ⟨cell, hput⟩ => ?_
      exact .pure hu ⟨hstems.mono hle'.past, cell, t.past, hput, hv⟩
  | step direction ref =>
      refine (stepRef_follows hs henv ref direction .expression).imp ?_
      rintro _ t _ _ ⟨x, rfl⟩
      exact ⟨Value.stems_scalar _, x, rfl⟩
  | call callee paren args =>
      refine .bind (h.eval hs henv callee) fun target t hle ht htarget => ?_
      refine .bind (h.evalAll ht (henv.mono hle) args) fun vs u hle' hu hvs => ?_
      have hgave := hle'.past.subset htarget.mem
      refine (h.call hu ⟨callee, hgave⟩ (Value.given_of_forall₂ hvs) paren.line).imp fun v w hle'' hw ⟨since, hcame⟩ => ?_
      exact ⟨hw.lawful.stems_of_came hcame.mem, since, target, hle''.past.subset hgave, hcame⟩
  | get object name inside =>
      refine .bind (h.eval hs henv object) fun target t _ ht htarget => ?_
      have hstems := ht.lawful.stems_of_gave htarget.mem
      refine (h.getProperty ht hstems name inside).imp fun v u hle' hu hyields => ?_
      exact ⟨hu.lawful.stems_of_yields (hstems.mono hle'.past) hyields, target,
        hle'.past.subset htarget.mem, hyields⟩
  | set object name value inside =>
      refine .bind (h.eval hs henv object) fun target t hle ht htarget => ?_
      cases target with
      | object o =>
          refine .bind (h.eval ht (henv.mono hle) value) fun v u hle' hu hv => ?_
          have hgave := hle'.past.subset htarget.mem
          refine .bind (h.writeProperty hu (hu.lawful.stems_of_gave hgave) name ⟨value, hv.mem⟩ inside)
            fun _ w hle'' hw hwritten => .pure hw ?_
          have hvalue := hle''.past.subset hv.mem
          exact ⟨hw.lawful.stems_of_gave hvalue, hvalue, o, hle''.past.subset hgave, hwritten⟩
      | _ => exact .fail ht _ _
  | receiver ref =>
      refine (readRef_follows hs ref env).imp fun v t _ ht ⟨cell, hgot⟩ => ?_
      exact ⟨ht.lawful.stems_of_got hgot.mem, cell, hgot⟩
  | inherited ref method =>
      refine (inherited_follows hs ref method env).imp ?_
      rintro v t _ _ ⟨cls, c, o, hmethod, hmade⟩
      exact ⟨.inr ⟨_, hmade.mem⟩, cls, c, o, hmethod, hmade⟩

end Scribe.Keeps

/-! ## Classes -/

/-- A class contains the routines of its own layer and those of its parent. -/
lemma Chronicle.Lawful.stems_of_layers {past : List Entry} (h : Lawful past) {own : Layer}
    {parent : Option ClassValue} (hown : ∀ {c}, own.Holds c → (Value.routine c).Stems past)
    (hparent : ∀ cls ∈ parent, (Value.classValue cls).Stems past) (part : Value)
    (hpart : (Value.classValue ⟨own, (parent.map (·.lineage)).getD []⟩).Contains part) :
    part.Stems past := by
  obtain ⟨l, hl, c, hc, rfl⟩ := hpart
  rcases List.mem_cons.mp hl with rfl | hl
  · exact hown hc
  · cases parent with
    | none => cases hl
    | some cls => exact h.stems_of_contains (hparent cls rfl) ⟨l, hl, c, hc, rfl⟩

namespace Scribe.Keeps

lemma superclass (h : k.Keeps i) (hs : s.Sound) (henv : s.Sees env) (ref : Option (Reference Depth)) :
    Follows s (k.superclass env ref) (i.superclass env ref) fun parent t =>
      ∀ cls ∈ parent, (Value.classValue cls).Stems t.past := by
  cases ref with
  | none => exact .pure hs (by simp)
  | some ref =>
      refine .bind (h.eval hs henv (.variable ref)) fun v t _ ht hv => ?_
      cases v with
      | classValue cls =>
          refine .pure ht ?_
          rintro _ ⟨⟩
          exact ht.lawful.stems_of_gave hv.mem
      | _ => exact .fail ht _ _

lemma declareClass (h : k.Keeps i) (hs : s.Sound) (henv : s.Sees env) (name : Token)
    (superclass : Option (Reference Depth))
    (methods statics getters setters : List (Routine (Stmt Depth))) :
    Follows s (k.declareClass env name superclass methods statics getters setters)
      (i.declareClass env name superclass methods statics getters setters) fun _ t =>
        ∃ address v older, t.past = .put (.frame address) name.lexeme v :: older
          ∧ Last older (.made (.classDecl name) v) := by
  refine .bind (define_follows hs henv _ (Value.stems_scalar _)) fun _ s₁ h₁ hs₁ _ => ?_
  refine .bind (h.superclass hs₁ (henv.mono h₁) superclass) fun parent s₂ h₂ hs₂ hparent => ?_
  have henv₂ : s₂.Sees env := henv.mono (h₁.trans h₂)
  refine .bind (classEnv_follows hs₂ henv₂.2 hparent) fun inner s₃ h₃ hs₃ hinner => ?_
  -- the four groups, each closed over the same frames
  have hinside {t : Annals} (hle : s₃.Le t) : Env.Within t.machine.Has inner :=
    fun a ha => hle.has _ (hinner a ha)
  refine .bind (closures_follows hs₃ hinner _ methods .empty) fun ms s₄ h₄ hs₄ hms => ?_
  refine .bind (closures_follows hs₄ (hinside h₄) _ statics .empty) fun ss s₅ h₅ hs₅ hss => ?_
  have h₃₅ := h₄.trans h₅
  refine .bind (closures_follows hs₅ (hinside h₃₅) _ getters .empty) fun gs s₆ h₆ hs₆ hgs => ?_
  have h₃₆ := h₃₅.trans h₆
  refine .bind (closures_follows hs₆ (hinside h₃₆) _ setters .empty) fun ts s₇ h₇ hs₇ hts => ?_
  have hgroups {c : Closure} (hc : (⟨s₇.machine.fresh, name.lexeme, ms, ss, gs, ts⟩ : Layer).Holds c) :
      (Value.routine c).Stems s₇.past :=
    Layer.forall_holds (P := fun c => (Value.routine c).Stems s₇.past)
      (fun key c hfind => (hms key c hfind).mono (h₅.trans (h₆.trans h₇)).past)
      (fun key c hfind => (hss key c hfind).mono (h₆.trans h₇).past)
      (fun key c hfind => (hgs key c hfind).mono h₇.past) hts c hc
  have hparent₇ : ∀ cls ∈ parent, (Value.classValue cls).Stems s₇.past :=
    fun cls hcls => (hparent cls hcls).mono (h₃.trans (h₃₆.trans h₇)).past
  refine .bind (.event hs₇ ⟨_, rfl, rfl⟩ rfl (hs₇.lawful.stems_of_layers hgroups hparent₇))
    fun ident s₈ h₈ hs₈ hmade => ?_
  refine .bind (.quiet hs₈ (.note _)) fun _ s₉ h₉ hs₉ hpast => ?_
  have hlast : Last s₉.past (.made (.classDecl name)
      (.classValue ⟨⟨ident, name.lexeme, ms, ss, gs, ts⟩, (parent.map (·.lineage)).getD []⟩)) := by
    rw [hpast.1, hmade]
    exact last_cons.mpr rfl
  have henv₉ : s₉.Sees env := henv₂.mono (h₃.trans (h₃₆.trans (h₇.trans (h₈.trans h₉))))
  refine (assign_follows hs₉ henv₉.2 name (.inr ⟨_, hlast.mem⟩)).imp fun _ t _ _ ⟨address, hput⟩ => ?_
  exact ⟨address, _, s₉.past, hput, hlast⟩

/-! ## Statements -/

/-- A loop, turn by turn. -/
lemma loop {test : Chronicle Bool} {test' : Run Bool} {body : Chronicle Completion}
    {body' : Run Completion} {after : Chronicle Unit} {after' : Run Unit}
    (htest : ∀ {s : Annals}, s.Sound → s.Sees env → Follows s test test' fun _ _ => True)
    (hbody : ∀ {s : Annals}, s.Sound → s.Sees env →
      Follows s body body' fun completion t => completion.Told t.past)
    (hafter : ∀ {s : Annals}, s.Sound → s.Sees env → Follows s after after' fun _ _ => True)
    (hs : s.Sound) (henv : s.Sees env) (fuel : Nat) :
    Follows s (Chronicle.loop test body after fuel) (Run.loop test' body' after' fuel)
      fun completion t => completion.Told t.past := by
  induction fuel generalizing s with
  | zero => exact .throw hs _
  | succ fuel ih =>
      refine .bind (htest hs henv) fun holds t hle ht _ => ?_
      cases holds with
      | false => exact .pure ht (by simp)
      | true =>
          have henv' := henv.mono hle
          refine .bind (hbody ht henv') fun completion u hle' hu htold => ?_
          cases completion with
          | broke => exact .pure hu (by simp)
          | returned v => exact .pure hu htold
          | _ =>
              refine .bind (hafter hu (henv'.mono hle')) fun _ w hle'' hw _ => ?_
              exact ih hw ((henv'.mono hle').mono hle'')

lemma advance (h : k.Keeps i) (hs : s.Sound) (henv : s.Sees env) (after : Option (Expr Depth)) :
    Follows s (k.advance env after) (i.advance env after) fun _ _ => True :=
  .bind (h.evalOption hs henv after) fun _ _ _ ht _ => .pure ht trivial

lemma begin (h : k.Keeps i) (hs : s.Sound) (henv : s.Sees env) (start : Option (ForStart Depth)) :
    Follows s (k.begin env start) (i.begin env start) fun _ _ => True := by
  cases start with
  | none => exact .pure hs trivial
  | some start => exact .bind (h.exec hs henv start.toStmt) fun _ _ _ ht _ => .pure ht trivial

lemma told (h : k.Keeps i) (hs : s.Sound) (henv : s.Sees env) (stmt : Stmt Depth) :
    Follows s (k.exec env stmt) (i.exec env stmt) fun completion t => completion.Told t.past :=
  (h.exec hs henv stmt).imp fun _ _ _ _ hlast => Completion.told_of_last hlast

/-- **How a statement ends has its law.** -/
theorem execStep (h : k.Keeps i) (hs : s.Sound) (henv : s.Sees env) (stmt : Stmt Depth) :
    Follows s (k.execStep env stmt) (i.execStep env stmt) fun completion t =>
      (Entry.ran stmt completion).Law t.past := by
  cases stmt with
  | expr e => exact .bind (h.eval hs henv e) fun _ _ _ ht _ => .pure ht trivial
  | echo e =>
      refine .bind (h.eval hs henv e) fun v t _ ht _ => ?_
      exact .bind (.quiet ht (.write _)) fun _ _ _ hu _ => .pure hu trivial
  | var name value =>
      refine .bind (h.evalOption hs henv value) fun v t hle ht ⟨hv, hvalue⟩ => ?_
      refine .bind (define_follows ht (henv.mono hle) _ hv) fun _ u _ hu ⟨address, hput⟩ => .pure hu ?_
      exact ⟨address, v, t.past, hput, hvalue⟩
  | block body =>
      refine .bind (.newFrame hs (List.forall_mem_nil _)) fun address t hle ht ⟨_, haddress⟩ => ?_
      have hinner : t.Sees (address :: env) := .cons (henv.mono hle).2 haddress
      exact (h.execAll ht hinner body).imp fun _ _ _ hu htold =>
        htold.ends hu.lawful (fun _ hpart => hpart) trivial
  | exit keyword code =>
      refine .bind (h.eval hs henv code) fun v t _ ht _ => ?_
      exact (Follows.quiet ht (.exitWith keyword.line v)).imp fun _ _ _ _ hnever => hnever.2.elim
  | branch condition yes no =>
      refine .bind (h.test hs henv condition) fun holds t hle ht _ => ?_
      have hpart (part : Stmt Depth) : Follows t (k.exec env part) (i.exec env part) fun completion u =>
          (Entry.ran (.branch condition yes no) completion).Law u.past :=
        (h.told ht (henv.mono hle) part).imp fun _ _ _ hu htold =>
          htold.ends hu.lawful (fun _ hpart => hpart) trivial
      cases holds with
      | true => exact hpart yes
      | false =>
          cases no with
          | none => exact .pure ht trivial
          | some no => exact hpart no
  | loop condition body =>
      simp only [Scribe.execStep, Interp.execStep, h.fuel]
      refine (loop (fun hs henv => h.test hs henv condition)
        (fun hs henv => h.told hs henv body) (fun hs _ => .pure hs trivial) hs henv i.fuel).imp ?_
      exact fun _ _ _ hu htold => htold.ends hu.lawful (fun _ hpart => hpart) trivial
  | forLoop start condition after body =>
      simp only [Scribe.execStep, Interp.execStep, h.fuel]
      refine .bind (.newFrame hs (List.forall_mem_nil _)) fun address t hle ht ⟨_, haddress⟩ => ?_
      have hinner : t.Sees (address :: env) := .cons (henv.mono hle).2 haddress
      refine .bind (h.begin ht hinner start) fun _ u hle' hu _ => ?_
      refine (loop (fun hs henv => h.test hs henv condition)
        (fun hs henv => h.told hs henv body) (fun hs henv => h.advance hs henv after) hu
        (hinner.mono hle') i.fuel).imp ?_
      exact fun _ _ _ hw htold => htold.ends hw.lawful (fun _ hpart => hpart) trivial
  | step direction ref =>
      exact .bind (stepRef_follows hs henv ref direction .statement) fun _ _ _ ht _ => .pure ht trivial
  | jump jump keyword => cases jump <;> exact .pure hs trivial
  | routine decl =>
      refine .bind (.event hs ⟨_, rfl, rfl⟩ ⟨rfl, henv.2⟩ fun _ hpart => hpart.elim) fun ident t hle ht hmade => ?_
      have hlast : Last t.past (.made (.routine decl) (.routine ⟨ident, decl, env, false⟩)) := by
        rw [hmade]
        exact last_cons.mpr rfl
      refine .bind (define_follows ht (henv.mono hle) decl.name.lexeme (.inr ⟨_, hlast.mem⟩))
        fun _ u _ hu hdefined => .pure hu ?_
      obtain ⟨address, hput⟩ := hdefined
      exact ⟨address, _, t.past, hput, hlast⟩
  | giveBack keyword value =>
      refine .bind (h.evalOption hs henv value) fun v t _ ht hvalue => ?_
      obtain ⟨hv, hsome, hnone⟩ := hvalue
      refine .pure ht ⟨hv, ?_⟩
      cases value with
      | none => exact hnone rfl
      | some e => exact hsome e rfl
  | classDecl name superclass methods statics getters setters =>
      exact .bind (h.declareClass hs henv name superclass methods statics getters setters)
        fun _ _ _ ht hdeclared => .pure ht hdeclared

end Scribe.Keeps

/-! ## All levels -/

namespace Chronicle

/-- **With any number of levels, chronicles follow the evaluator.** -/
theorem keeps (fuel : Nat) : (scribeAt fuel).Keeps (interpAt fuel) := by
  induction fuel with
  | zero => exact ⟨rfl, fun hs _ _ => .throw hs _, fun hs _ _ => .throw hs _⟩
  | succ fuel ih =>
      refine ⟨rfl, fun hs henv e => ?_, fun hs henv stmt => ?_⟩
      · exact .logged (ih.evalStep hs henv e) (fun _ => trivial) fun _ _ _ hlaw => hlaw
      · exact .logged (ih.execStep hs henv stmt) (fun _ => trivial) fun _ _ _ hlaw => hlaw

/-- The chronicle of a program follows its run. -/
lemma run_follows (fuel : Nat) (program : Program Depth) (hs : s.Sound) :
    Follows s (run fuel program) (Program.run fuel program) fun _ _ => True := by
  induction program generalizing s with
  | nil => exact .pure hs trivial
  | cons stmt rest ih =>
      have hglobal : s.Sees Machine.globalEnv :=
        ⟨List.cons_ne_nil _ _, List.forall_mem_singleton.mpr hs.global⟩
      exact .bind ((keeps fuel).exec hs hglobal stmt) fun _ _ _ ht _ => ih ht

end Chronicle

end KScript

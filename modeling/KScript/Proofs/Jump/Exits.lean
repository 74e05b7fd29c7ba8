import KScript.Eval
import KScript.Proofs.Grammar.Rendering
import KScript.Proofs.Rename.Resolve

/-!
# How statements can end

`Stmt.exits` reads off a statement in which ways it can end other than by running to its end: by a jump
that none of its own loops catches, or by giving a value back.  Executing it ends in no other way
(`interpAt_exits`), whatever the machine.

The grammar has jumps only in loops, and the rules of scopes have `return` only in bodies.  So in an
accepted program the statements of the top level have no exits at all, and no body of a routine has a
jump among its exits (`Stmt.enclosedAll_resolve`).
-/

namespace KScript

open Scope

/-- The ways in which a statement can end before its end. -/
inductive Exit where
  | jump
  | giveBack
deriving DecidableEq

/-- The way in which a completion leaves a statement. -/
def Completion.exit? : Completion → Option Exit
  | .normal => none
  | .broke => some .jump
  | .continued => some .jump
  | .returned _ => some .giveBack

section

variable {β : Type}

mutual

/-- The ways in which a statement can be left. -/
def Stmt.exits : Stmt β → List Exit
  | .block body => Stmt.exitsAll body
  | .branch _ yes no => yes.exits ++ Stmt.exitsOption no
  | .loop _ body => body.exits.filter (· = .giveBack)
  | .forLoop _ _ _ body => body.exits.filter (· = .giveBack)
  | .jump _ _ => [.jump]
  | .giveBack _ _ => [.giveBack]
  | _ => []

/-- The ways in which one of the listed statements can be left. -/
def Stmt.exitsAll : List (Stmt β) → List Exit
  | [] => []
  | s :: rest => s.exits ++ Stmt.exitsAll rest

/-- The ways in which a statement that may be left out can be left. -/
def Stmt.exitsOption : Option (Stmt β) → List Exit
  | none => []
  | some s => s.exits

end

mutual

/-- In the bodies of all routines of the statement, jumps are in loops. -/
def Stmt.Enclosed : Stmt β → Prop
  | .block body => Stmt.EnclosedAll body
  | .branch _ yes no => yes.Enclosed ∧ Stmt.EnclosedOption no
  | .loop _ body => body.Enclosed
  | .forLoop _ _ _ body => body.Enclosed
  | .routine ⟨_, _, body⟩ => .jump ∉ Stmt.exitsAll body ∧ Stmt.EnclosedAll body
  | .classDecl _ _ methods statics getters setters =>
    Stmt.EnclosedRoutines methods ∧ Stmt.EnclosedRoutines statics ∧ Stmt.EnclosedRoutines getters
      ∧ Stmt.EnclosedRoutines setters
  | _ => True

/-- The same for statements that are listed. -/
def Stmt.EnclosedAll : List (Stmt β) → Prop
  | [] => True
  | s :: rest => s.Enclosed ∧ Stmt.EnclosedAll rest

/-- The same for a statement that may be left out. -/
def Stmt.EnclosedOption : Option (Stmt β) → Prop
  | none => True
  | some s => s.Enclosed

/-- The same for the bodies of routines, themselves included. -/
def Stmt.EnclosedRoutines : List (Routine (Stmt β)) → Prop
  | [] => True
  | ⟨_, _, body⟩ :: rest =>
    (.jump ∉ Stmt.exitsAll body ∧ Stmt.EnclosedAll body) ∧ Stmt.EnclosedRoutines rest

end

/-- In the body of the routine, and of those in it, jumps are in loops. -/
def Routine.Enclosed (r : Routine (Stmt β)) : Prop :=
  .jump ∉ Stmt.exitsAll r.body ∧ Stmt.EnclosedAll r.body

lemma Stmt.enclosedRoutines_iff {rs : List (Routine (Stmt β))} :
    Stmt.EnclosedRoutines rs ↔ ∀ r ∈ rs, r.Enclosed := by
  induction rs with
  | nil => simp [Stmt.EnclosedRoutines]
  | cons r rest ih =>
      obtain ⟨name, params, body⟩ := r
      simp [Stmt.EnclosedRoutines, Routine.Enclosed, ih]

end

/-! ## Accepted programs -/

/-- Where jumps are not allowed, there are none. -/
def JumpsOnlyIf (inLoop : Bool) (exits : List Exit) : Prop := inLoop = false → .jump ∉ exits

mutual

/-- The grammar has jumps in loops only. -/
theorem Stmt.enclosed_resolve : ∀ {context : Parser.Context} {s : Stmt Unit} (c : Context),
    s.WellFormed context →
    JumpsOnlyIf context.inLoop (s.resolve c).exits ∧ (s.resolve c).Enclosed
  | _, .expr _, _, _ | _, .echo _, _, _ | _, .var _ _, _, _ => ⟨fun _ => List.not_mem_nil, trivial⟩
  | _, .block body, c, h => Stmt.enclosedAll_resolve c.enter h
  | _, .exit _ _, _, _ => ⟨fun _ => List.not_mem_nil, trivial⟩
  | _, .branch _ yes no, c, ⟨_, _, hyes, hno⟩ => by
      obtain ⟨hjumps, henclosed⟩ := Stmt.enclosed_resolve c hyes
      obtain ⟨hjumps', henclosed'⟩ := Stmt.enclosedOption_resolve c hno
      refine ⟨fun hloop hmem => ?_, henclosed, henclosed'⟩
      rcases List.mem_append.mp hmem with hmem | hmem
      · exact hjumps hloop hmem
      · exact hjumps' hloop hmem
  | _, .loop _ body, c, ⟨_, _, hbody⟩ =>
      ⟨fun _ hmem => by simp [Stmt.resolve, Stmt.exits] at hmem,
        (Stmt.enclosed_resolve c hbody).2⟩
  | _, .forLoop start _ _ body, c, ⟨_, _, _, _, hbody⟩ =>
      ⟨fun _ hmem => by simp [Stmt.resolve, Stmt.exits] at hmem,
        (Stmt.enclosed_resolve (c.enter.afterStart start) hbody).2⟩
  | _, .step _ _, _, _ => ⟨fun _ => List.not_mem_nil, trivial⟩
  | _, .jump _ _, _, h => ⟨fun hloop => absurd h.1 (by simp [hloop]), trivial⟩
  | _, .routine ⟨_, _, _⟩, _, ⟨_, hbody⟩ => by
      obtain ⟨hjumps, henclosed⟩ := Stmt.enclosedAll_resolve _ hbody
      exact ⟨fun _ => List.not_mem_nil, hjumps rfl, henclosed⟩
  | _, .giveBack _ _, _, _ => ⟨fun _ => by simp [Stmt.resolve, Stmt.exits], trivial⟩
  | _, .classDecl _ _ _ _ _ _, _, ⟨_, hm, hs, hg, ht⟩ =>
      ⟨fun _ => List.not_mem_nil, Stmt.enclosedRoutines_resolve _ _ hm,
        Stmt.enclosedRoutines_resolve _ _ hs, Stmt.enclosedRoutines_resolve _ _ hg,
        Stmt.enclosedRoutines_resolve _ _ ht⟩

theorem Stmt.enclosedAll_resolve : ∀ {context : Parser.Context} {ss : List (Stmt Unit)}
    (c : Context), Stmt.WellFormedAll context ss →
    JumpsOnlyIf context.inLoop (Stmt.exitsAll (Stmt.resolveAll c ss))
      ∧ Stmt.EnclosedAll (Stmt.resolveAll c ss)
  | _, [], _, _ => ⟨fun _ => List.not_mem_nil, trivial⟩
  | _, s :: _, c, ⟨hs, hrest⟩ => by
      obtain ⟨hjumps, henclosed⟩ := Stmt.enclosed_resolve c hs
      obtain ⟨hjumps', henclosed'⟩ := Stmt.enclosedAll_resolve (c.after s) hrest
      refine ⟨fun hloop hmem => ?_, henclosed, henclosed'⟩
      rcases List.mem_append.mp hmem with hmem | hmem
      · exact hjumps hloop hmem
      · exact hjumps' hloop hmem

theorem Stmt.enclosedOption_resolve : ∀ {context : Parser.Context} {s : Option (Stmt Unit)}
    (c : Context), Stmt.WellFormedOption context s →
    JumpsOnlyIf context.inLoop (Stmt.exitsOption (Stmt.resolveOption c s))
      ∧ Stmt.EnclosedOption (Stmt.resolveOption c s)
  | _, none, _, _ => ⟨fun _ => List.not_mem_nil, trivial⟩
  | _, some _, c, h => Stmt.enclosed_resolve c h

theorem Stmt.enclosedRoutines_resolve : ∀ {context : Parser.Context}
    {rs : List (Routine (Stmt Unit))} (c : Context) (kind : Token → BodyKind),
    Stmt.WellFormedRoutines context rs → Stmt.EnclosedRoutines (Stmt.resolveRoutines c kind rs)
  | _, [], _, _, _ => trivial
  | _, ⟨_, _, _⟩ :: _, c, kind, ⟨hbody, hrest⟩ => by
      obtain ⟨hjumps, henclosed⟩ := Stmt.enclosedAll_resolve _ hbody
      exact ⟨⟨hjumps rfl, henclosed⟩, Stmt.enclosedRoutines_resolve c kind hrest⟩

end

mutual

/-- The rules of scopes have `return` in bodies only. -/
theorem Stmt.giveBack_not_mem_exits : ∀ {c : Context} {s : Stmt Unit}, c.body = .none →
    s.check c = [] → .giveBack ∉ (s.resolve c).exits
  | c, .block _, hc, h => Stmt.giveBack_not_mem_exitsAll (c := c.enter) hc h
  | c, .branch _ yes no, hc, h => by
      simp only [Stmt.check, List.append_eq_nil_iff] at h
      simp [Stmt.resolve, Stmt.exits, Stmt.giveBack_not_mem_exits hc h.1.2,
        Stmt.giveBack_not_mem_exitsOption hc h.2]
  | c, .loop _ body, hc, h => by
      simp only [Stmt.check, List.append_eq_nil_iff] at h
      simp [Stmt.resolve, Stmt.exits, Stmt.giveBack_not_mem_exits hc h.2]
  | c, .forLoop start _ _ body, hc, h => by
      simp only [Stmt.check, List.append_eq_nil_iff] at h
      have hinner : (c.enter.afterStart start).body = .none := by
        rcases start with _ | ⟨name, value⟩ | e <;> exact hc
      simp [Stmt.resolve, Stmt.exits, Stmt.giveBack_not_mem_exits hinner h.2]
  | c, .giveBack _ _, hc, h => by
      simp [Stmt.check, Context.checkReturn, complainWhen, hc] at h
  | _, .jump _ _, _, _ => by simp [Stmt.resolve, Stmt.exits]
  | _, .expr _, _, _ | _, .echo _, _, _ | _, .var _ _, _, _ | _, .exit _ _, _, _
  | _, .step _ _, _, _ | _, .routine ⟨_, _, _⟩, _, _ | _, .classDecl _ _ _ _ _ _, _, _ =>
      List.not_mem_nil

theorem Stmt.giveBack_not_mem_exitsAll : ∀ {c : Context} {ss : List (Stmt Unit)}, c.body = .none →
    Stmt.checkAll c ss = [] → .giveBack ∉ Stmt.exitsAll (Stmt.resolveAll c ss)
  | _, [], _, _ => List.not_mem_nil
  | c, s :: rest, hc, h => by
      simp only [Stmt.checkAll, List.append_eq_nil_iff] at h
      have hafter : (c.after s).body = .none := by cases s <;> exact hc
      simp [Stmt.resolveAll, Stmt.exitsAll, Stmt.giveBack_not_mem_exits hc h.1,
        Stmt.giveBack_not_mem_exitsAll hafter h.2]

theorem Stmt.giveBack_not_mem_exitsOption : ∀ {c : Context} {s : Option (Stmt Unit)},
    c.body = .none → Stmt.checkOption c s = [] →
    .giveBack ∉ Stmt.exitsOption (Stmt.resolveOption c s)
  | _, none, _, _ => List.not_mem_nil
  | _, some _, hc, h => Stmt.giveBack_not_mem_exits hc h

end

/-! ## Executions -/

/-- Whenever the computation comes to an end, its result has the property. -/
def Run.Gives {α : Type} (x : Run α) (Q : α → Prop) : Prop := ∀ m a n, x m = .ok a n → Q a

namespace Run.Gives

variable {α β : Type} {Q : α → Prop} {R : β → Prop} {x : Run α} {f : α → Run β}

lemma pure {a : α} (h : Q a) : Gives (Pure.pure a) Q := by
  rintro m b n ⟨⟩
  exact h

lemma throw (s : Signal) : Gives (throw s) Q := by
  rintro m b n ⟨⟩

lemma bind (hx : Gives x Q) (hf : ∀ a, Q a → Gives (f a) R) : Gives (x >>= f) R := by
  intro m b n hrun
  simp only [Bind.bind, EStateM.bind] at hrun
  split at hrun
  · next a m' ha => exact hf a (hx m a m' ha) m' b n hrun
  · cases hrun

/-- Whatever comes first, if the rest does not depend on it. -/
lemma after (hf : ∀ a, Gives (f a) R) : Gives (x >>= f) R :=
  bind (Q := fun _ => True) (fun _ _ _ _ => trivial) fun a _ => hf a

end Run.Gives

/-- The completion leaves the statement in one of the ways, if it leaves it at all. -/
def Completion.In (exits : List Exit) (c : Completion) : Prop := ∀ x, c.exit? = some x → x ∈ exits

/-- A loop catches jumps. -/
lemma Run.Gives.loop {test : Run Bool} {body : Run Completion} {after : Run Unit}
    {exits : List Exit} (hbody : Gives body (Completion.In exits)) (fuel : Nat) :
    Gives (Run.loop test body after fuel) (Completion.In (exits.filter (· = .giveBack))) := by
  induction fuel with
  | zero => exact .throw _
  | succ fuel ih =>
      refine .after fun holds => ?_
      split
      · refine .bind hbody fun c hc => ?_
        split
        · exact .pure nofun
        · refine .pure ?_
          rintro x ⟨⟩
          simpa using hc _ rfl
        · exact .after fun _ => ih
      · exact .pure nofun

/-- The evaluator executes statements so that they end in one of their ways. -/
def Interp.Exits (i : Interp) : Prop := ∀ env s, Run.Gives (i.exec env s) (Completion.In s.exits)

namespace Interp.Exits

variable {i : Interp}

lemma execAll (h : i.Exits) (env : Env) (ss : List (Stmt Depth)) :
    Run.Gives (i.execAll env ss) (Completion.In (Stmt.exitsAll ss)) := by
  induction ss with
  | nil => exact .pure nofun
  | cons s rest ih =>
      refine .bind (h env s) fun c hc => ?_
      split
      · exact fun m c n hrun x hx => List.mem_append_right _ (ih m c n hrun x hx)
      · exact .pure fun x hx => List.mem_append_left _ (hc x hx)

/-- **A statement ends in one of its ways if its parts do.** -/
theorem execStep (h : i.Exits) (env : Env) (s : Stmt Depth) :
    Run.Gives (i.execStep env s) (Completion.In s.exits) := by
  cases s with
  | expr e => exact .after fun _ => .pure nofun
  | echo e | var name value => exact .after fun _ => .after fun _ => .pure nofun
  | block body => exact .after fun address => h.execAll (address :: env) body
  | exit keyword code =>
      refine .after fun v => ?_
      unfold exitWith
      split
      · split
        · exact .after fun _ => .throw _
        · exact .throw _
      · exact .throw _
  | branch condition yes no =>
      refine .after fun holds => ?_
      split
      · exact fun m c n hrun x hx => List.mem_append_left _ (h env yes m c n hrun x hx)
      · cases no with
        | some s => exact fun m c n hrun x hx => List.mem_append_right _ (h env s m c n hrun x hx)
        | none => exact .pure nofun
  | loop condition body => exact .loop (h env body) i.fuel
  | forLoop start condition after body =>
      exact .after fun address => .after fun _ => .loop (h (address :: env) body) i.fuel
  | step direction ref => exact .after fun _ => .pure nofun
  | jump jump keyword =>
      cases jump <;>
      · refine .pure ?_
        rintro x ⟨⟩
        exact List.mem_cons_self
  | routine decl => exact .after fun _ => .after fun _ => .pure nofun
  | giveBack keyword value =>
      refine .after fun v => .pure ?_
      rintro x ⟨⟩
      exact List.mem_cons_self
  | classDecl name superclass methods statics getters setters =>
      exact .after fun _ => .pure nofun

end Interp.Exits

/-- **Every level of the evaluator ends statements in one of their ways.** -/
theorem interpAt_exits (fuel : Nat) : (interpAt fuel).Exits := by
  induction fuel with
  | zero => exact fun _ _ => .throw _
  | succ fuel ih => exact fun env s => ih.execStep env s

end KScript

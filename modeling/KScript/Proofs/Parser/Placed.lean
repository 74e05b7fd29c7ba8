import KScript.Proofs.Grammar.Parts
import KScript.Proofs.Grammar.Statement
import KScript.Proofs.Parser.Reading

/-!
# Where declarations stand

The statements that survive in a script, however malformed the script is, have one thing in common: a
declaration stands only where statements are listed, never as the branch of an `if` or as the body of a
loop.  `Yields` says what holds of every answer of a parser, whatever it has complained about, and
`Stmt.Placed` is what holds of the statements.
-/

namespace KScript

open KScript.Parser (Item Group Grammar)

/-! ## Placed statements -/

mutual

/-- Declarations stand only where statements are listed. -/
def Stmt.Placed : Item → Prop
  | .block body => Stmt.PlacedAll body
  | .branch _ yes no => yes.isDeclaration = false ∧ yes.Placed ∧ Stmt.PlacedOption no
  | .loop _ body => body.isDeclaration = false ∧ body.Placed
  | .forLoop _ _ _ body => body.isDeclaration = false ∧ body.Placed
  | .routine ⟨_, _, body⟩ => Stmt.PlacedAll body
  | .classDecl _ _ methods statics getters setters =>
    Stmt.PlacedRoutines methods ∧ Stmt.PlacedRoutines statics ∧ Stmt.PlacedRoutines getters
      ∧ Stmt.PlacedRoutines setters
  | _ => True

/-- The same for statements that are listed. -/
def Stmt.PlacedAll : List Item → Prop
  | [] => True
  | s :: rest => s.Placed ∧ Stmt.PlacedAll rest

/-- The same for a branch that may be left out. -/
def Stmt.PlacedOption : Option Item → Prop
  | none => True
  | some s => s.isDeclaration = false ∧ s.Placed

/-- The same for the bodies of routines. -/
def Stmt.PlacedRoutines : List (Routine Item) → Prop
  | [] => True
  | ⟨_, _, body⟩ :: rest => Stmt.PlacedAll body ∧ Stmt.PlacedRoutines rest

end

lemma Stmt.placedAll_iff {items : List Item} :
    Stmt.PlacedAll items ↔ ∀ s ∈ items, s.Placed := by
  induction items with
  | nil => simp [Stmt.PlacedAll]
  | cons s rest ih => simp [Stmt.PlacedAll, ih]

lemma Stmt.placedRoutines_iff {routines : List (Routine Item)} :
    Stmt.PlacedRoutines routines ↔ ∀ r ∈ routines, Stmt.PlacedAll r.body := by
  induction routines with
  | nil => simp [Stmt.PlacedRoutines]
  | cons r rest ih =>
      obtain ⟨name, params, body⟩ := r
      simp [Stmt.PlacedRoutines, ih]

lemma Stmt.hereditary_placed : Stmt.Hereditary Stmt.Placed where
  block h := Stmt.placedAll_iff.mp h
  branch {_ _ no} h := by
    refine ⟨h.2.1, ?_⟩
    rintro s ⟨⟩
    exact h.2.2.2
  loop h := h.2
  forLoop h := h.2
  routines {s} h := by
    cases s with
    | routine decl =>
        rintro r (_ | ⟨_, ⟨⟩⟩)
        exact Stmt.placedAll_iff.mp h
    | classDecl name superclass methods statics getters setters =>
        obtain ⟨hm, hs, hg, ht⟩ := h
        simp only [Stmt.placedRoutines_iff, Stmt.placedAll_iff] at hm hs hg ht
        simp only [Stmt.ownRoutines, List.forall_mem_append]
        exact ⟨⟨⟨hm, hs⟩, hg⟩, ht⟩
    | _ => simp [Stmt.ownRoutines]

namespace Parser

/-! ## Answers of parsers -/

variable {α β : Type} {P : α → Prop} {Q : β → Prop}

/-- Every answer of the parser has the property, whatever it has complained about. -/
def Yields (p : Parser α) (P : α → Prop) : Prop := ∀ c a d, p c = .ok a d → P a

namespace Yields

lemma pure {a : α} (h : P a) : Yields (Pure.pure a) P := by
  rintro c b d ⟨⟩
  exact h

lemma bind {p : Parser α} {f : α → Parser β} (hp : Yields p P) (hf : ∀ a, P a → Yields (f a) Q) :
    Yields (p >>= f) Q := by
  intro c b e h
  obtain ⟨a, d, hpa, hfa⟩ := bind_eq_ok h
  exact hf a (hp c a d hpa) d b e hfa

/-- Whatever comes first, if the rest does not depend on it. -/
lemma after {p : Parser α} {f : α → Parser β} (hf : ∀ a, Yields (f a) Q) : Yields (p >>= f) Q :=
  bind (P := fun _ => True) (fun _ _ _ _ => trivial) fun a _ => hf a

lemma throw (e : Abort) : Yields (throw e) P := by
  rintro c a d ⟨⟩

lemma fail (token : Option Token) (complaint : Complaint) : Yields (Parser.fail token complaint) P :=
  after fun _ => throw _

end Yields

/-! ## Lists of statements and of routines -/

section Listed

variable {g : Grammar} {context : Context} {D : Item → Prop}

namespace Yields

lemma declarations (h : Yields (g.declaration context) fun s => ∀ x ∈ s, D x) (fuel : Nat) :
    Yields (declarations g context fuel) fun items => ∀ s ∈ items, D s := by
  induction fuel with
  | zero => exact .pure (by simp)
  | succ fuel ih =>
      refine .after fun ended => ?_
      split
      · exact .pure (by simp)
      · refine .bind h fun item hitem => ?_
        split
        · next s => exact .bind ih fun rest hrest => .pure (by simpa using ⟨hitem s rfl, hrest⟩)
        · exact ih

lemma block (h : Yields (g.declaration context) fun s => ∀ x ∈ s, D x) (fuel : Nat) :
    Yields (block g fuel context) fun body => ∀ s ∈ body, D s :=
  .bind (h.declarations fuel) fun _ hbody => .after fun _ => .pure hbody

/-- In the body of a routine no loop is left. -/
lemma routine (h : Yields (g.declaration { context with inLoop := false }) fun s => ∀ x ∈ s, D x)
    (fuel : Nat) (form : RoutineForm) :
    Yields (routine g fuel context form) fun r => ∀ s ∈ r.body, D s :=
  .after fun _ => .after fun _ => .after fun _ => .after fun _ => .after fun _ => .after fun _ =>
    .bind (h.block fuel) fun _ hbody => .pure hbody

lemma member (h : Yields (g.declaration { context with inLoop := false }) fun s => ∀ x ∈ s, D x)
    (fuel : Nat) : Yields (member g fuel context) fun r => ∀ s ∈ r.2.body, D s := by
  refine .after fun word => ?_
  split
  · exact .bind (h.routine fuel _) fun _ hr => .pure hr
  · split <;> exact .bind (h.routine fuel _) fun _ hr => .pure hr

lemma members (h : Yields (g.declaration { context with inLoop := false }) fun s => ∀ x ∈ s, D x)
    (bound fuel : Nat) : Yields (members g context bound fuel) fun all =>
      ∀ r ∈ all, ∀ s ∈ r.2.body, D s := by
  induction fuel with
  | zero => exact .pure (by simp)
  | succ fuel ih =>
      refine .after fun ended => ?_
      split
      · exact .pure (by simp)
      · refine .bind (h.member bound) fun first hfirst => ?_
        exact .bind ih fun rest hrest => .pure (List.forall_mem_cons.mpr ⟨hfirst, hrest⟩)

/-- A declaration that is dropped yields nothing. -/
lemma declaration {fuel : Nat} (h : Yields (declarationOrStatement g fuel context) D) :
    Yields (declaration g fuel context) fun s => ∀ x ∈ s, D x := by
  intro c s d hs
  unfold Parser.declaration at hs
  split at hs
  · next item next hitem =>
      cases hs
      rintro x ⟨⟩
      exact h _ _ _ hitem
  · cases hs
    simp

lemma program (h : ∀ fuel, Yields (declarationAt fuel topLevel) fun s => ∀ x ∈ s, D x) (fuel : Nat) :
    Yields (program fuel) fun items => ∀ s ∈ items, D s := by
  induction fuel with
  | zero => exact .pure (by simp)
  | succ fuel ih =>
      refine .after fun ended => ?_
      split
      · exact .pure (by simp)
      · refine .bind (h (fuel + 1)) fun item hitem => ?_
        split
        · next s => exact .bind ih fun rest hrest => .pure (by simpa using ⟨hitem s rfl, hrest⟩)
        · exact ih

end Yields

/-- The routines of a group are among the routines. -/
lemma forall_ofGroup {all : List (Group × Routine Item)} (h : ∀ r ∈ all, ∀ s ∈ r.2.body, D s)
    (group : Group) : ∀ r ∈ ofGroup group all, ∀ s ∈ r.body, D s := by
  intro r hr
  obtain ⟨member, hmember, rfl⟩ := List.mem_map.mp hr
  exact h member (List.mem_filter.mp hmember).1

end Listed

/-! ## The grammar of statements -/

/-- What the grammar enters itself for. -/
structure Grammar.Places (g : Grammar) : Prop where
  statement : ∀ context, Yields (g.statement context) fun s => s.isDeclaration = false ∧ s.Placed
  declaration : ∀ context, Yields (g.declaration context) fun s => ∀ x ∈ s, x.Placed

variable {g : Grammar} {context : Context}

namespace Grammar.Places

lemma classRest (h : g.Places) (fuel : Nat) :
    Yields (classRest g fuel context) Stmt.Placed := by
  refine .after fun name => .after fun extended => ?_
  -- with a superclass or without, the same members follow
  split <;>
  · refine .after fun superclass => .after fun _ => ?_
    refine .bind ((h.declaration _).members fuel fuel) fun all hall => .after fun _ => .pure ?_
    have hgroup (group : Group) : Stmt.PlacedRoutines (ofGroup group all) :=
      Stmt.placedRoutines_iff.mpr fun r hr => Stmt.placedAll_iff.mpr (forall_ofGroup hall group r hr)
    exact ⟨hgroup _, hgroup _, hgroup _, hgroup _⟩

lemma branchRest (h : g.Places) :
    Yields (branchRest g context) fun s => s.isDeclaration = false ∧ s.Placed := by
  refine .after fun test => .bind (h.statement context) fun yes hyes => .after fun word => ?_
  split
  · exact .bind (h.statement context) fun no hno => .pure ⟨rfl, hyes.1, hyes.2, hno⟩
  · exact .pure ⟨rfl, hyes.1, hyes.2, trivial⟩

lemma loopRest (h : g.Places) :
    Yields (loopRest g context) fun s => s.isDeclaration = false ∧ s.Placed :=
  .after fun _ => .bind (h.statement _) fun _ hbody => .pure ⟨rfl, hbody⟩

lemma forRest (h : g.Places) :
    Yields (forRest g context) fun s => s.isDeclaration = false ∧ s.Placed :=
  .after fun _ => .after fun _ => .after fun _ => .after fun _ => .after fun _ => .after fun _ =>
    .bind (h.statement _) fun _ hbody => .pure ⟨rfl, hbody⟩

/-- A statement of its own declares nothing. -/
lemma ofStatement (h : g.Places) (fuel : Nat) :
    Yields (Parser.statement g fuel context) fun s => s.isDeclaration = false ∧ s.Placed := by
  refine .after fun word => ?_
  split
  · exact .after fun _ => .pure ⟨rfl, trivial⟩
  · split
    · exact h.branchRest
    · exact h.loopRest
    · exact h.forRest
    · refine .after fun semicolon => ?_
      split
      · exact .pure ⟨rfl, trivial⟩
      · exact .after fun _ => .pure ⟨rfl, trivial⟩
    · exact .after fun _ => .after fun _ => .pure ⟨rfl, trivial⟩
    · unfold jumpRest
      split
      · exact .after fun _ => .pure ⟨rfl, trivial⟩
      · exact .fail _ _
    · unfold jumpRest
      split
      · exact .after fun _ => .pure ⟨rfl, trivial⟩
      · exact .fail _ _
    · exact .bind ((h.declaration _).block fuel) fun _ hbody => .pure ⟨rfl, Stmt.placedAll_iff.mpr hbody⟩
    · exact .after fun _ => .after fun _ => .pure ⟨rfl, trivial⟩

lemma declarationOrStatement (h : g.Places) (fuel : Nat) :
    Yields (declarationOrStatement g fuel context) Stmt.Placed := by
  refine .after fun word => ?_
  split
  · intro c s d hs
    exact (h.ofStatement fuel c s d hs).2
  · split
    · exact h.classRest fuel
    · exact .bind ((h.declaration _).routine fuel _) fun _ hr => .pure (Stmt.placedAll_iff.mpr hr)
    · exact .after fun _ => .pure trivial

end Grammar.Places

/-- **Every level of the grammar places its declarations.** -/
theorem places (fuel : Nat) : Grammar.Places ⟨statementAt fuel, declarationAt fuel⟩ := by
  induction fuel with
  | zero => exact ⟨fun _ => .throw _, fun _ => .throw _⟩
  | succ fuel ih => exact ⟨fun _ => ih.ofStatement fuel, fun _ => .declaration (ih.declarationOrStatement fuel)⟩

theorem program_places (fuel : Nat) : Yields (program fuel) fun items => ∀ s ∈ items, s.Placed :=
  .program (fun fuel => (places fuel).declaration topLevel) fuel

end Parser

/-- **In every parsed script, malformed or not, declarations stand only where statements are listed.** -/
theorem Parsed.placed (tokens : List Token) (endLine : Nat) (reports : List Diagnostic) :
    Stmt.PlacedAll (Parsed.ofTokens tokens endLine reports).program := by
  unfold Parsed.ofTokens
  split
  · next program c hrun => exact Stmt.placedAll_iff.mpr (Parser.program_places _ _ _ _ hrun)
  · trivial

end KScript

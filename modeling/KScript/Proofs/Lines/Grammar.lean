import KScript.Proofs.Grammar.Statement
import KScript.Proofs.Lines.Relined

/-!
# The grammar and lines

Lines mean nothing to the grammar: a tree that is moved to other lines is spelled by the tokens that are moved
with it.
-/

namespace KScript

open KScript.Parser (Tree Item Group ofGroup)

variable {f : Nat → Nat}

/-! ## Expressions -/

namespace Expr

@[simp] lemma rank_relined (e : Tree) : (e.relined f).rank = e.rank := by cases e <;> rfl

@[simp] lemma endsOpen_relined : ∀ e : Tree, (e.relined f).endsOpen = e.endsOpen
  | .logical _ _ right => endsOpen_relined right
  | .conditional _ _ _ => rfl
  | .literal _ | .array _ | .grouping _ | .unary _ _ | .binary _ _ _ | .variable _ | .assign _ _
  | .step _ _ | .call _ _ _ | .get _ _ _ | .set _ _ _ _ | .receiver _ | .inherited _ _ => rfl

@[simp] lemma beginsWithStep_relined : ∀ e : Tree, (e.relined f).beginsWithStep = e.beginsWithStep
  | .binary left _ _ | .logical left _ _ => beginsWithStep_relined left
  | .conditional condition _ _ => beginsWithStep_relined condition
  | .call callee _ _ => beginsWithStep_relined callee
  | .get object _ _ | .set object _ _ _ => beginsWithStep_relined object
  | .step _ _ => rfl
  | .literal _ | .array _ | .grouping _ | .unary _ _ | .variable _ | .assign _ _ | .receiver _
  | .inherited _ _ => rfl

lemma Fits.relined {inside : Bool} {e : Tree} (h : Fits inside e) : Fits inside (e.relined f) := by
  have hiff : Fits inside (e.relined f) ↔ Fits inside e := by
    cases e <;> simp [Fits, Expr.relined, Expr.relinedAll_eq, Reference.relined]
  exact hiff.mpr h

end Expr

lemma Commas.relined {texts : List (List Token)} {ts : List Token} (h : Commas texts ts) :
    Commas (texts.map (List.map (Token.relined f))) (ts.map (Token.relined f)) := by
  induction h with
  | none => exact .none
  | one text => exact .one _
  | more kind nonempty _ ih =>
      rw [List.map_append, List.map_cons, List.map_cons]
      exact .more kind (by simpa using nonempty) ih

mutual

lemma Expr.Spells.relined {inside : Bool} : ∀ {e : Tree} {ts : List Token}, e.Spells inside ts →
    (e.relined f).Spells inside (ts.map (Token.relined f))
  | .literal _, _, ⟨_, rfl, hvalue⟩ => ⟨_, rfl, hvalue⟩
  | .array _, _, ⟨left, _, right, _, rfl, hleft, hright, hcommas, hitems, hfits⟩ =>
      ⟨left.relined f, _, right.relined f, _, by simp, hleft, hright, hcommas.relined,
        Expr.SpellsEach.relined hitems, hfits.relined⟩
  | .grouping _, _, ⟨left, _, right, rfl, hleft, hright, hinner⟩ =>
      ⟨left.relined f, _, right.relined f, by simp, hleft, hright, hinner.relined⟩
  | .unary _ _, _, ⟨_, rfl, hoperand, hfits⟩ => ⟨_, rfl, hoperand.relined, hfits.relined⟩
  | .binary _ _ _, _, ⟨_, _, rfl, hleft, hright, hfits⟩
  | .logical _ _ _, _, ⟨_, _, rfl, hleft, hright, hfits⟩ =>
      ⟨_, _, by simp, hleft.relined, hright.relined, hfits.relined⟩
  | .conditional _ _ _, _,
      ⟨_, question, _, colon, _, rfl, hquestion, hcolon, hcondition, hyes, hno, hfits⟩ =>
      ⟨_, question.relined f, _, colon.relined f, _, by simp, hquestion, hcolon, hcondition.relined,
        hyes.relined, hno.relined, hfits.relined⟩
  | .variable _, _, ⟨rfl, hfits⟩ => ⟨rfl, hfits.relined⟩
  | .assign _ _, _, ⟨_, _, rfl, hfits, hvalue⟩ =>
      ⟨_, _, rfl, hfits.relined,
        hvalue.imp (fun h => ⟨h.1, h.2.relined⟩) fun h => Expr.SpellsCompound.relined h⟩
  | .step _ _, _, ⟨_, rfl, hword, hfits⟩ => ⟨_, rfl, hword, hfits.relined⟩
  | .call _ _ _, _, ⟨_, left, _, _, rfl, hleft, hcallee, hcommas, hargs, hfits⟩ =>
      ⟨_, left.relined f, _, _, by simp, hleft, hcallee.relined, hcommas.relined,
        Expr.SpellsEach.relined hargs, hfits.relined⟩
  | .get _ _ _, _, ⟨_, dot, rfl, hdot, hobject, hfits⟩ =>
      ⟨_, dot.relined f, by simp, hdot, hobject.relined, hfits.relined⟩
  | .set _ _ _ _, _, ⟨_, dot, equals, _, rfl, hdot, hequals, hobject, hvalue, hfits⟩ =>
      ⟨_, dot.relined f, equals.relined f, _, by simp, hdot, hequals, hobject.relined, hvalue.relined,
        hfits.relined⟩
  | .receiver _, _, ⟨rfl, hfits⟩ => ⟨rfl, hfits.relined⟩
  | .inherited _ _, _, ⟨_, rfl, hdot, hfits⟩ => ⟨_, rfl, hdot, hfits.relined⟩

lemma Expr.SpellsCompound.relined {inside : Bool} {ref : Reference Unit} {equals : Token} {value : Tree}
    {ts : List Token} (h : Expr.SpellsCompound inside ref equals value ts) :
    Expr.SpellsCompound inside (ref.relined f) (equals.relined f) (value.relined f)
      (ts.map (Token.relined f)) := by
  cases value with
  | binary left op right =>
      obtain ⟨hcompound, rfl, rfl, hright⟩ := h
      exact ⟨hcompound, rfl, rfl, hright.relined⟩
  | _ => exact h.elim

lemma Expr.SpellsEach.relined {inside : Bool} : ∀ {es : List Tree} {texts : List (List Token)},
    Expr.SpellsEach inside es texts →
      Expr.SpellsEach inside (Expr.relinedAll f es) (texts.map (List.map (Token.relined f)))
  | [], _, rfl => rfl
  | _ :: _, _, ⟨_, _, rfl, he, hrest⟩ => ⟨_, _, rfl, he.relined, Expr.SpellsEach.relined hrest⟩

end

/-! ## Statements -/

namespace Stmt

@[simp] lemma isDeclaration_relined (s : Item) : (s.relined f).isDeclaration = s.isDeclaration := by
  cases s <;> rfl

@[simp] lemma endsInIf_relined : ∀ s : Item, (s.relined f).endsInIf = s.endsInIf
  | .branch _ _ none => rfl
  | .branch _ _ (some no) => endsInIf_relined no
  | .loop _ body => endsInIf_relined body
  | .forLoop _ _ _ body => endsInIf_relined body
  | .expr _ | .echo _ | .var _ _ | .block _ | .exit _ _ | .step _ _ | .jump _ _ | .routine _
  | .giveBack _ _ | .classDecl _ _ _ _ _ _ => rfl

/-- What the routines ask is asked of them on other lines too. -/
lemma fits_relinedRoutines {form : RoutineForm} {rs : List (Routine Item)}
    (h : ∀ r ∈ rs, r.Fits form) : ∀ r ∈ relinedRoutines f rs, r.Fits form := by
  induction rs with
  | nil => exact h
  | cons r rest ih =>
      obtain ⟨hr, hrest⟩ := List.forall_mem_cons.mp h
      refine List.forall_mem_cons.mpr ⟨?_, ih hrest⟩
      simpa [Routine.Fits] using hr

lemma Fits.relined {context : Parser.Context} {s : Item} (h : Fits context s) :
    Fits context (s.relined f) := by
  cases s with
  | classDecl name superclass methods statics getters setters =>
      obtain ⟨hname, hsuper, hmethods, hstatics, hgetters, hsetters⟩ := h
      refine ⟨hname, ?_, fits_relinedRoutines hmethods, fits_relinedRoutines hstatics,
        fits_relinedRoutines hgetters, fits_relinedRoutines hsetters⟩
      simpa [Reference.relined] using hsuper
  | forLoop start condition after body =>
      refine ⟨?_, by simpa using h.2⟩
      match start, h.1 with
      | none, _ => trivial
      | some (.var name value), hname => exact hname
      | some (.expr e), _ => trivial
  | routine decl => simpa [Fits, Routine.Fits, Stmt.relined] using h
  | echo e => exact h
  | block body => trivial
  | _ => simpa [Fits, Stmt.relined, Reference.relined, relinedOption_eq] using h

end Stmt

lemma Expr.SpellsOption.relined {inside : Bool} {e : Option Tree} {ts : List Token}
    (h : Expr.SpellsOption inside e ts) :
    Expr.SpellsOption inside (e.map (Expr.relined f)) (ts.map (Token.relined f)) := by
  cases e with
  | none =>
      obtain rfl := h
      rfl
  | some e => exact Expr.Spells.relined h

lemma Token.SpellsVar.relined {name : Token} {inside : Bool} {value : Option Tree} {ts : List Token}
    (h : name.SpellsVar inside value ts) :
    (name.relined f).SpellsVar inside (value.map (Expr.relined f)) (ts.map (Token.relined f)) := by
  cases value with
  | none =>
      obtain ⟨semicolon, rfl, hsemicolon⟩ := h
      exact ⟨_, rfl, hsemicolon⟩
  | some e =>
      obtain ⟨equals, a, semicolon, rfl, hequals, hsemicolon, he⟩ := h
      exact ⟨equals.relined f, _, semicolon.relined f, by simp, hequals, hsemicolon, he.relined⟩

lemma ForStart.Spells.relined {inside : Bool} {start : Option (ForStart Unit)} {ts : List Token}
    (h : ForStart.Spells inside start ts) :
    ForStart.Spells inside (start.map (ForStart.relined f)) (ts.map (Token.relined f)) := by
  match start, ts, h with
  | none, _, ⟨_, rfl, hsemicolon⟩ => exact ⟨_, rfl, hsemicolon⟩
  | some (.var name value), _, ⟨_, _, rfl, hword, hvar⟩ => exact ⟨_, _, rfl, hword, hvar.relined⟩
  | some (.expr e), _, ⟨_, semicolon, rfl, hsemicolon, he⟩ =>
      exact ⟨_, semicolon.relined f, by simp, hsemicolon, he.relined⟩

lemma Token.SpellsHead.relined {name : Token} {params ts : List Token} (h : name.SpellsHead params ts) :
    (name.relined f).SpellsHead (params.map (Token.relined f)) (ts.map (Token.relined f)) := by
  obtain ⟨left, mid, right, brace, rfl, hleft, hright, hbrace, hcommas⟩ := h
  refine ⟨left.relined f, mid.map (Token.relined f), right.relined f, brace.relined f, by simp, hleft,
    hright, hbrace, ?_⟩
  simpa [Function.comp_def] using hcommas.relined (f := f)

lemma Parser.Group.Marks.relined {group : Group} {ts : List Token} (h : group.Marks ts) :
    group.Marks (ts.map (Token.relined f)) := by
  cases group with
  | methods =>
      obtain rfl := h
      rfl
  | _ =>
      obtain ⟨word, rfl, hword⟩ := h
      exact ⟨_, rfl, hword⟩

lemma Reference.SpellsSuperclass.relined {superclass : Option (Reference Unit)} {ts : List Token}
    (h : Reference.SpellsSuperclass superclass ts) :
    Reference.SpellsSuperclass (superclass.map (Reference.relined f)) (ts.map (Token.relined f)) := by
  cases superclass with
  | none =>
      obtain rfl := h
      rfl
  | some ref =>
      obtain ⟨arrow, rfl, harrow⟩ := h
      exact ⟨_, rfl, harrow⟩

/-- The texts of a group of members, on other lines. -/
lemma Parser.ofGroup_relined (group : Group) (members : List (Group × List Token)) :
    ofGroup group (members.map fun member => (member.1, member.2.map (Token.relined f)))
      = (ofGroup group members).map (List.map (Token.relined f)) := by
  simp [ofGroup, List.filter_map, Function.comp_def]

mutual

lemma Stmt.Spells.relined {context : Parser.Context} : ∀ {s : Item} {ts : List Token},
    s.Spells context ts → (s.relined f).Spells context (ts.map (Token.relined f))
  | .expr _, _, ⟨_, semicolon, rfl, hsemicolon, he, hfits⟩ =>
      ⟨_, semicolon.relined f, by simp, hsemicolon, he.relined, hfits.relined⟩
  | .var _ _, _, ⟨_, _, rfl, hword, hvar, hfits⟩ => ⟨_, _, rfl, hword, hvar.relined, hfits.relined⟩
  | .block _, _, ⟨left, _, right, rfl, hleft, hright, hbody⟩ =>
      ⟨left.relined f, _, right.relined f, by simp, hleft, hright, Stmt.SpellsAll.relined hbody⟩
  | .exit _ _, _, ⟨_, semicolon, rfl, hsemicolon, hcode, hfits⟩ =>
      ⟨_, semicolon.relined f, by simp, hsemicolon,
        hcode.imp Expr.Spells.relined (fun h => ⟨by rw [h.1, List.map_nil], by rw [h.2, Expr.relined]⟩),
        hfits.relined⟩
  | .branch _ _ _, _,
      ⟨word, left, _, right, _, _, rfl, hword, hleft, hright, htest, hyes, hno, hfits⟩ =>
      ⟨word.relined f, left.relined f, _, right.relined f, _, _, by simp, hword, hleft, hright,
        htest.relined, hyes.relined, Stmt.SpellsElse.relined hno, hfits.relined⟩
  | .loop _ _, _, ⟨word, left, _, right, _, rfl, hword, hleft, hright, htest, hbody, hfits⟩ =>
      ⟨word.relined f, left.relined f, _, right.relined f, _, by simp, hword, hleft, hright,
        htest.relined, hbody.relined, hfits.relined⟩
  | .forLoop _ _ _ _, _, ⟨word, left, _, _, semicolon, _, right, _, rfl, hword, hleft, hsemicolon,
      hright, hstart, htest, hafter, hbody, hfits⟩ =>
      ⟨word.relined f, left.relined f, _, _, semicolon.relined f, _, right.relined f, _, by simp, hword,
        hleft, hsemicolon, hright, hstart.relined,
        htest.imp Expr.Spells.relined (fun h => ⟨by rw [h.1, List.map_nil], by rw [h.2, Expr.relined]⟩),
        hafter.relined, hbody.relined, hfits.relined⟩
  | .step _ _, _, ⟨_, _, rfl, hword, hsemicolon, hfits⟩ =>
      ⟨_, _, rfl, hword, hsemicolon, hfits.relined⟩
  | .jump _ _, _, ⟨_, rfl, hsemicolon, hfits⟩ => ⟨_, rfl, hsemicolon, hfits.relined⟩
  | .routine ⟨_, _, _⟩, _, ⟨word, _, _, right, rfl, hword, hright, hhead, hbody, hfits⟩ =>
      ⟨word.relined f, _, _, right.relined f, by simp, hword, hright, hhead.relined,
        Stmt.SpellsAll.relined hbody, hfits.relined⟩
  | .giveBack _ _, _, ⟨_, semicolon, rfl, hsemicolon, hvalue, hfits⟩ =>
      ⟨_, semicolon.relined f, by simp, hsemicolon, hvalue.relined, hfits.relined⟩
  | .classDecl _ _ _ _ _ _, _, ⟨word, _, left, members, right, rfl, hword, hleft, hright, hsuper,
      hmethods, hstatics, hgetters, hsetters, hfits⟩ =>
      ⟨word.relined f, _, left.relined f,
        members.map fun member => (member.1, member.2.map (Token.relined f)), right.relined f,
        by simp [List.map_flatten, Function.comp_def], hword, hleft, hright, hsuper.relined,
        by rw [Parser.ofGroup_relined]; exact Stmt.SpellsRoutines.relined hmethods,
        by rw [Parser.ofGroup_relined]; exact Stmt.SpellsRoutines.relined hstatics,
        by rw [Parser.ofGroup_relined]; exact Stmt.SpellsRoutines.relined hgetters,
        by rw [Parser.ofGroup_relined]; exact Stmt.SpellsRoutines.relined hsetters, hfits.relined⟩

lemma Stmt.SpellsAll.relined {context : Parser.Context} : ∀ {ss : List Item} {ts : List Token},
    Stmt.SpellsAll context ss ts →
      Stmt.SpellsAll context (Stmt.relinedAll f ss) (ts.map (Token.relined f))
  | [], _, rfl => rfl
  | _ :: _, _, ⟨_, _, rfl, hs, hrest⟩ =>
      ⟨_, _, List.map_append, hs.relined, Stmt.SpellsAll.relined hrest⟩

lemma Stmt.SpellsElse.relined {context : Parser.Context} : ∀ {s : Option Item} {ts : List Token},
    Stmt.SpellsElse context s ts →
      Stmt.SpellsElse context (Stmt.relinedOption f s) (ts.map (Token.relined f))
  | none, _, rfl => rfl
  | some _, _, ⟨_, _, rfl, hword, hs⟩ => ⟨_, _, rfl, hword, hs.relined⟩

lemma Stmt.SpellsRoutines.relined {context : Parser.Context} {group : Group} :
    ∀ {rs : List (Routine Item)} {texts : List (List Token)},
      Stmt.SpellsRoutines context group rs texts →
        Stmt.SpellsRoutines context group (Stmt.relinedRoutines f rs)
          (texts.map (List.map (Token.relined f)))
  | [], _, rfl => rfl
  | ⟨_, _, _⟩ :: _, _, ⟨mark, _, _, right, _, rfl, hmark, hright, hhead, hbody, hrest⟩ =>
      ⟨mark.map (Token.relined f), _, _, right.relined f, _, by simp, hmark.relined, hright, hhead.relined,
        Stmt.SpellsAll.relined hbody, Stmt.SpellsRoutines.relined hrest⟩

end

end KScript

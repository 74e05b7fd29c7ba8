import KScript.Proofs.Grammar.Statement
import KScript.Proofs.Token.Lexed

/-!
# Trees of lexemes

A tree that is spelled by lexed tokens holds lexed tokens only, and no literal of it is a negative zero
(`Stmt.lexedAll_of_spells`).  The operators of compound assignments are the only tokens of a tree that are
not tokens of its text.
-/

namespace KScript

open KScript.Parser (Tree Item Group ofGroup)

/-! ## The property -/

mutual

/-- Every token of the expression is lexed, and so is every literal. -/
def Expr.Lexed : Tree → Prop
  | .literal value => value.Lexed
  | .array items => Expr.LexedAll items
  | .grouping inner => inner.Lexed
  | .unary op operand => op.Lexed ∧ operand.Lexed
  | .binary left op right => left.Lexed ∧ op.Lexed ∧ right.Lexed
  | .logical left op right => left.Lexed ∧ op.Lexed ∧ right.Lexed
  | .conditional condition yes no => condition.Lexed ∧ yes.Lexed ∧ no.Lexed
  | .variable ref => ref.name.Lexed
  | .assign ref value => ref.name.Lexed ∧ value.Lexed
  | .step _ ref => ref.name.Lexed
  | .call callee paren args => callee.Lexed ∧ paren.Lexed ∧ Expr.LexedAll args
  | .get object name _ => object.Lexed ∧ name.Lexed
  | .set object name value _ => object.Lexed ∧ name.Lexed ∧ value.Lexed
  | .receiver ref => ref.name.Lexed
  | .inherited ref method => ref.name.Lexed ∧ method.Lexed

/-- All of the expressions. -/
def Expr.LexedAll : List Tree → Prop
  | [] => True
  | e :: rest => e.Lexed ∧ Expr.LexedAll rest

end

/-- The first clause of a `for` loop, if it has one. -/
def ForStart.Lexed : ForStart Unit → Prop
  | .var name value => name.Lexed ∧ ∀ e ∈ value, e.Lexed
  | .expr e => e.Lexed

mutual

/-- Every token of the statement is lexed, and so is every literal. -/
def Stmt.Lexed : Item → Prop
  | .expr e => e.Lexed
  | .echo e => e.Lexed
  | .var name value => name.Lexed ∧ ∀ e ∈ value, e.Lexed
  | .block body => Stmt.LexedAll body
  | .exit keyword code => keyword.Lexed ∧ code.Lexed
  | .branch condition yes no => condition.Lexed ∧ yes.Lexed ∧ Stmt.LexedOption no
  | .loop condition body => condition.Lexed ∧ body.Lexed
  | .forLoop start condition after body =>
    (∀ clause ∈ start, clause.Lexed) ∧ condition.Lexed ∧ (∀ e ∈ after, e.Lexed) ∧ body.Lexed
  | .step _ ref => ref.name.Lexed
  | .jump _ keyword => keyword.Lexed
  | .routine ⟨name, params, body⟩ => name.Lexed ∧ (∀ p ∈ params, p.Lexed) ∧ Stmt.LexedAll body
  | .giveBack keyword value => keyword.Lexed ∧ ∀ e ∈ value, e.Lexed
  | .classDecl name superclass methods statics getters setters =>
    name.Lexed ∧ (∀ ref ∈ superclass, ref.name.Lexed) ∧ Stmt.LexedRoutines methods
      ∧ Stmt.LexedRoutines statics ∧ Stmt.LexedRoutines getters ∧ Stmt.LexedRoutines setters

/-- All of the statements. -/
def Stmt.LexedAll : List Item → Prop
  | [] => True
  | s :: rest => s.Lexed ∧ Stmt.LexedAll rest

/-- The statement, if there is one. -/
def Stmt.LexedOption : Option Item → Prop
  | none => True
  | some s => s.Lexed

/-- All of the routines. -/
def Stmt.LexedRoutines : List (Routine Item) → Prop
  | [] => True
  | ⟨name, params, body⟩ :: rest =>
    (name.Lexed ∧ (∀ p ∈ params, p.Lexed) ∧ Stmt.LexedAll body) ∧ Stmt.LexedRoutines rest

end

/-- The tokens of a text between commas are tokens of the whole. -/
lemma Commas.mem_of_mem {texts : List (List Token)} {mid : List Token} (h : Commas texts mid) :
    ∀ text ∈ texts, ∀ t ∈ text, t ∈ mid := by
  induction h with
  | none => simp
  | one text => simp
  | more kind nonempty tail ih =>
      intro text htext t ht
      rcases List.mem_cons.mp htext with rfl | htext
      · exact List.mem_append_left _ ht
      · exact List.mem_append_right _ (List.mem_cons_of_mem _ (ih text htext t ht))

lemma Commas.forall_mem {P : Token → Prop} {texts : List (List Token)} {mid : List Token}
    (h : Commas texts mid) (hmid : ∀ t ∈ mid, P t) : ∀ text ∈ texts, ∀ t ∈ text, P t :=
  fun text htext t ht => hmid t (h.mem_of_mem text htext t ht)

/-! ## Expressions -/

variable {inside : Bool}

mutual

theorem Expr.lexed_of_spells : ∀ {e : Tree} {ts : List Token}, e.Spells inside ts →
    (∀ t ∈ ts, t.Lexed) → e.Lexed
  | .literal _, _, h, hts => by
      obtain ⟨t, rfl, hvalue⟩ := h
      exact (hts t List.mem_cons_self).denotes? hvalue
  | .array items, _, h, hts => by
      obtain ⟨_, _, _, texts, rfl, -, -, hcommas, hitems, -⟩ := h
      simp only [List.forall_mem_cons, List.forall_mem_append] at hts
      exact Expr.lexedAll_of_spells hitems (hcommas.forall_mem hts.2.1)
  | .grouping inner, _, h, hts => by
      obtain ⟨_, _, _, rfl, -, -, hinner⟩ := h
      simp only [List.forall_mem_cons, List.forall_mem_append] at hts
      exact Expr.lexed_of_spells (e := inner) hinner hts.2.1
  | .unary _ _, _, h, hts => by
      obtain ⟨_, rfl, hoperand, -⟩ := h
      simp only [List.forall_mem_cons] at hts
      exact ⟨hts.1, Expr.lexed_of_spells hoperand hts.2⟩
  | .binary _ _ _, _, h, hts | .logical _ _ _, _, h, hts => by
      obtain ⟨_, _, rfl, hleft, hright, -⟩ := h
      simp only [List.forall_mem_cons, List.forall_mem_append] at hts
      exact ⟨Expr.lexed_of_spells hleft hts.1, hts.2.1, Expr.lexed_of_spells hright hts.2.2⟩
  | .conditional _ _ _, _, h, hts => by
      obtain ⟨_, _, _, _, _, rfl, -, -, hcond, hyes, hno, -⟩ := h
      simp only [List.forall_mem_cons, List.forall_mem_append] at hts
      exact ⟨Expr.lexed_of_spells hcond hts.1, Expr.lexed_of_spells hyes hts.2.2.1,
        Expr.lexed_of_spells hno hts.2.2.2.2⟩
  | .variable _, _, h, hts => by
      obtain ⟨rfl, -⟩ := h
      exact hts _ List.mem_cons_self
  | .assign _ _, _, h, hts => by
      obtain ⟨_, _, rfl, -, hvalue⟩ := h
      simp only [List.forall_mem_cons] at hts
      refine ⟨hts.1, ?_⟩
      rcases hvalue with ⟨-, hvalue⟩ | hvalue
      · exact Expr.lexed_of_spells hvalue hts.2.2
      · exact Expr.lexed_of_spellsCompound hts.1 hvalue hts.2.2
  | .step _ _, _, h, hts => by
      obtain ⟨_, rfl, -, -⟩ := h
      simp only [List.forall_mem_cons] at hts
      exact hts.2.1
  | .call _ _ _, _, h, hts => by
      obtain ⟨_, _, _, _, rfl, -, hcallee, hcommas, hargs, -⟩ := h
      simp only [List.forall_mem_cons, List.forall_mem_append] at hts
      exact ⟨Expr.lexed_of_spells hcallee hts.1, hts.2.2.2.1,
        Expr.lexedAll_of_spells hargs (hcommas.forall_mem hts.2.2.1)⟩
  | .get _ _ _, _, h, hts => by
      obtain ⟨_, _, rfl, -, hobject, -⟩ := h
      simp only [List.forall_mem_cons, List.forall_mem_append] at hts
      exact ⟨Expr.lexed_of_spells hobject hts.1, hts.2.2.1⟩
  | .set _ _ _ _, _, h, hts => by
      obtain ⟨_, _, _, _, rfl, -, -, hobject, hvalue, -⟩ := h
      simp only [List.forall_mem_cons, List.forall_mem_append] at hts
      exact ⟨Expr.lexed_of_spells hobject hts.1, hts.2.2.1, Expr.lexed_of_spells hvalue hts.2.2.2.2⟩
  | .receiver _, _, h, hts => by
      obtain ⟨rfl, -⟩ := h
      exact hts _ List.mem_cons_self
  | .inherited _ _, _, h, hts => by
      obtain ⟨_, rfl, -, -⟩ := h
      simp only [List.forall_mem_cons] at hts
      exact ⟨hts.1, hts.2.2.1⟩

/-- What a compound assignment computes its value with has an operator of its own. -/
theorem Expr.lexed_of_spellsCompound {ref : Reference Unit} {equals : Token} (href : ref.name.Lexed) :
    ∀ {value : Tree} {ts : List Token}, Expr.SpellsCompound inside ref equals value ts →
    (∀ t ∈ ts, t.Lexed) → value.Lexed
  | .binary _ _ _, _, h, hts => by
      obtain ⟨-, rfl, rfl, hright⟩ := h
      exact ⟨href, equals.lexed_operatorOf, Expr.lexed_of_spells hright hts⟩
  | .literal _, _, h, _ | .array _, _, h, _ | .grouping _, _, h, _ | .unary _ _, _, h, _
  | .logical _ _ _, _, h, _ | .conditional _ _ _, _, h, _ | .variable _, _, h, _
  | .assign _ _, _, h, _ | .step _ _, _, h, _ | .call _ _ _, _, h, _ | .get _ _ _, _, h, _
  | .set _ _ _ _, _, h, _ | .receiver _, _, h, _ | .inherited _ _, _, h, _ => h.elim

theorem Expr.lexedAll_of_spells : ∀ {items : List Tree} {texts : List (List Token)},
    Expr.SpellsEach inside items texts → (∀ text ∈ texts, ∀ t ∈ text, t.Lexed) → Expr.LexedAll items
  | [], _, _, _ => trivial
  | _ :: _, _, h, hts => by
      obtain ⟨_, _, rfl, he, hrest⟩ := h
      simp only [List.forall_mem_cons] at hts
      exact ⟨Expr.lexed_of_spells he hts.1, Expr.lexedAll_of_spells hrest hts.2⟩

end

/-! ## Statements -/

lemma Expr.lexed_of_spellsOption {value : Option Tree} {ts : List Token}
    (h : Expr.SpellsOption inside value ts) (hts : ∀ t ∈ ts, t.Lexed) : ∀ e ∈ value, e.Lexed := by
  rintro e rfl
  exact Expr.lexed_of_spells h hts

lemma Token.lexed_of_spellsVar {name : Token} {value : Option Tree} {ts : List Token}
    (h : name.SpellsVar inside value ts) (hts : ∀ t ∈ ts, t.Lexed) :
    name.Lexed ∧ ∀ e ∈ value, e.Lexed := by
  cases value with
  | none =>
      obtain ⟨_, rfl, -⟩ := h
      exact ⟨hts _ List.mem_cons_self, by simp⟩
  | some e =>
      obtain ⟨_, _, _, rfl, -, -, he⟩ := h
      simp only [List.forall_mem_cons, List.forall_mem_append] at hts
      refine ⟨hts.1, ?_⟩
      intro _ hmem
      cases hmem
      exact Expr.lexed_of_spells he hts.2.2.1

lemma ForStart.lexed_of_spells {start : Option (ForStart Unit)} {ts : List Token}
    (h : ForStart.Spells inside start ts) (hts : ∀ t ∈ ts, t.Lexed) :
    ∀ clause ∈ start, clause.Lexed := by
  rintro clause rfl
  cases clause with
  | var name value =>
      obtain ⟨_, _, rfl, -, hvar⟩ := h
      simp only [List.forall_mem_cons] at hts
      exact Token.lexed_of_spellsVar hvar hts.2
  | expr e =>
      obtain ⟨_, _, rfl, -, he⟩ := h
      simp only [List.forall_mem_append] at hts
      exact Expr.lexed_of_spells he hts.1

lemma Token.lexed_of_spellsHead {name : Token} {params ts : List Token} (h : name.SpellsHead params ts)
    (hts : ∀ t ∈ ts, t.Lexed) : name.Lexed ∧ ∀ p ∈ params, p.Lexed := by
  obtain ⟨_, _, _, _, rfl, -, -, -, hcommas⟩ := h
  simp only [List.forall_mem_cons, List.forall_mem_append] at hts
  refine ⟨hts.1, fun p hp => ?_⟩
  exact hts.2.2.1 p (hcommas.mem_of_mem [p] (List.mem_map.mpr ⟨p, hp, rfl⟩) p List.mem_cons_self)

lemma forall_mem_ofGroup {P : Token → Prop} {group : Group} {members : List (Group × List Token)}
    (h : ∀ t ∈ (members.map Prod.snd).flatten, P t) : ∀ text ∈ ofGroup group members, ∀ t ∈ text, P t := by
  intro text htext t ht
  obtain ⟨member, hmember, rfl⟩ := List.mem_map.mp htext
  have hmem := (List.mem_filter.mp hmember).1
  exact h t (List.mem_flatten.mpr ⟨_, List.mem_map.mpr ⟨member, hmem, rfl⟩, ht⟩)

mutual

theorem Stmt.lexed_of_spells : ∀ {context : Parser.Context} {s : Item} {ts : List Token},
    s.Spells context ts → (∀ t ∈ ts, t.Lexed) → s.Lexed
  | _, .expr _, _, h, hts => by
      obtain ⟨_, _, rfl, -, he, -⟩ := h
      simp only [List.forall_mem_append] at hts
      exact Expr.lexed_of_spells he hts.1
  | _, .echo _, _, h, _ => h.elim
  | _, .var _ _, _, h, hts => by
      obtain ⟨_, _, rfl, -, hvar, -⟩ := h
      simp only [List.forall_mem_cons] at hts
      exact Token.lexed_of_spellsVar hvar hts.2
  | _, .block body, _, h, hts => by
      obtain ⟨_, _, _, rfl, -, -, hbody⟩ := h
      simp only [List.forall_mem_cons, List.forall_mem_append] at hts
      have hlexed : Stmt.LexedAll body := Stmt.lexedAll_of_spells hbody hts.2.1
      exact hlexed
  | _, .exit _ code, _, h, hts => by
      obtain ⟨_, _, rfl, -, hcode, -⟩ := h
      simp only [List.forall_mem_cons, List.forall_mem_append] at hts
      refine ⟨hts.1, ?_⟩
      rcases hcode with hcode | ⟨-, rfl⟩
      · exact Expr.lexed_of_spells (e := code) hcode hts.2.1
      · exact Double.isNegative_ofRatio 0 1
  | _, .branch _ _ _, _, h, hts => by
      obtain ⟨_, _, _, _, _, _, rfl, -, -, -, htest, hyes, hno, -⟩ := h
      simp only [List.forall_mem_cons, List.forall_mem_append] at hts
      exact ⟨Expr.lexed_of_spells htest hts.2.2.1, Stmt.lexed_of_spells hyes hts.2.2.2.2.1,
        Stmt.lexedOption_of_spells hno hts.2.2.2.2.2⟩
  | _, .loop _ _, _, h, hts => by
      obtain ⟨_, _, _, _, _, rfl, -, -, -, htest, hbody, -⟩ := h
      simp only [List.forall_mem_cons, List.forall_mem_append] at hts
      exact ⟨Expr.lexed_of_spells htest hts.2.2.1, Stmt.lexed_of_spells hbody hts.2.2.2.2⟩
  | _, .forLoop _ test _ _, _, h, hts => by
      obtain ⟨_, _, _, _, _, _, _, _, rfl, -, -, -, -, hstart, htest, hafter, hbody, -⟩ := h
      simp only [List.forall_mem_cons, List.forall_mem_append] at hts
      obtain ⟨-, -, hs, hb, -, hc, -, hd⟩ := hts
      have hlexed : test.Lexed := by
        rcases htest with htest | ⟨-, rfl⟩
        · exact Expr.lexed_of_spells htest hb
        · trivial
      exact ⟨ForStart.lexed_of_spells hstart hs, hlexed, Expr.lexed_of_spellsOption hafter hc,
        Stmt.lexed_of_spells hbody hd⟩
  | _, .step _ _, _, h, hts => by
      obtain ⟨_, _, rfl, -⟩ := h
      simp only [List.forall_mem_cons] at hts
      exact hts.2.1
  | _, .jump _ _, _, h, hts => by
      obtain ⟨_, rfl, -⟩ := h
      exact hts _ List.mem_cons_self
  | _, .routine ⟨_, _, _⟩, _, h, hts => by
      obtain ⟨_, _, _, _, rfl, -, -, hhead, hbody, -⟩ := h
      simp only [List.forall_mem_cons, List.forall_mem_append] at hts
      have ⟨hname, hparams⟩ := Token.lexed_of_spellsHead hhead hts.2.1
      exact ⟨hname, hparams, Stmt.lexedAll_of_spells hbody hts.2.2.1⟩
  | _, .giveBack _ _, _, h, hts => by
      obtain ⟨_, _, rfl, -, hvalue, -⟩ := h
      simp only [List.forall_mem_cons, List.forall_mem_append] at hts
      exact ⟨hts.1, Expr.lexed_of_spellsOption hvalue hts.2.1⟩
  | _, .classDecl _ superclass _ _ _ _, _, h, hts => by
      obtain ⟨_, _, _, _, _, rfl, -, -, -, hparent, hm, hs, hg, ht, -⟩ := h
      simp only [List.forall_mem_cons, List.forall_mem_append] at hts
      obtain ⟨-, hname, hp, -, hmembers, -⟩ := hts
      have hsuper : ∀ ref ∈ superclass, ref.name.Lexed := by
        rintro ref rfl
        obtain ⟨_, rfl, -⟩ := hparent
        simp only [List.forall_mem_cons] at hp
        exact hp.2.1
      exact ⟨hname, hsuper, Stmt.lexedRoutines_of_spells hm (forall_mem_ofGroup hmembers),
        Stmt.lexedRoutines_of_spells hs (forall_mem_ofGroup hmembers),
        Stmt.lexedRoutines_of_spells hg (forall_mem_ofGroup hmembers),
        Stmt.lexedRoutines_of_spells ht (forall_mem_ofGroup hmembers)⟩

theorem Stmt.lexedAll_of_spells : ∀ {context : Parser.Context} {items : List Item}
    {ts : List Token}, Stmt.SpellsAll context items ts → (∀ t ∈ ts, t.Lexed) → Stmt.LexedAll items
  | _, [], _, _, _ => trivial
  | _, _ :: _, _, h, hts => by
      obtain ⟨_, _, rfl, hs, hrest⟩ := h
      simp only [List.forall_mem_append] at hts
      exact ⟨Stmt.lexed_of_spells hs hts.1, Stmt.lexedAll_of_spells hrest hts.2⟩

theorem Stmt.lexedOption_of_spells : ∀ {context : Parser.Context} {no : Option Item}
    {ts : List Token}, Stmt.SpellsElse context no ts → (∀ t ∈ ts, t.Lexed) → Stmt.LexedOption no
  | _, none, _, _, _ => trivial
  | _, some s, _, h, hts => by
      obtain ⟨_, _, rfl, -, hs⟩ := h
      simp only [List.forall_mem_cons] at hts
      exact Stmt.lexed_of_spells (s := s) hs hts.2

theorem Stmt.lexedRoutines_of_spells {group : Group} : ∀ {context : Parser.Context}
    {routines : List (Routine Item)} {texts : List (List Token)},
    Stmt.SpellsRoutines context group routines texts → (∀ text ∈ texts, ∀ t ∈ text, t.Lexed) →
    Stmt.LexedRoutines routines
  | _, [], _, _, _ => trivial
  | _, ⟨_, _, _⟩ :: _, _, h, hts => by
      obtain ⟨_, _, _, _, _, rfl, -, -, hhead, hbody, hrest⟩ := h
      simp only [List.forall_mem_cons, List.forall_mem_append] at hts
      have ⟨hname, hparams⟩ := Token.lexed_of_spellsHead hhead hts.1.2.1
      exact ⟨⟨hname, hparams, Stmt.lexedAll_of_spells hbody hts.1.2.2.1⟩,
        Stmt.lexedRoutines_of_spells hrest hts.2⟩

end

end KScript

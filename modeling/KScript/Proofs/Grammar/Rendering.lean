import KScript.Proofs.Grammar.Statement
import KScript.Text.Literal
import Mathlib.Tactic.Common

/-!
# Writing trees down

Every well-formed tree has a spelling: `Stmt.render` writes one down, and what it writes spells the
statement (`Stmt.spells_render`).  In the other direction only well-formed trees are spelled at all
(`Stmt.wellFormed_of_spells`), so that a tree is well formed exactly if it can be written.

The tokens of names and operators stay as they are in the tree.  Of the ways to write the same thing
the plain one is taken: `x = x op v`, unless `v` is too loose to stand to the right of the operator.
-/

namespace KScript

open KScript.Parser (Tree Item Group ofGroup)

/-! ## Tokens that the tree does not keep -/

/-- The text of a token that is always written in the same way. -/
def Kind.text : Kind → String
  | .leftParen => "("
  | .rightParen => ")"
  | .leftBrace => "\x7b"
  | .rightBrace => "\x7d"
  | .leftSquare => "["
  | .rightSquare => "]"
  | .comma => ","
  | .dot => "."
  | .semicolon => ";"
  | .question => "?"
  | .colon => ":"
  | .equal => "="
  | .plusEqual => "+="
  | .minusEqual => "-="
  | .starEqual => "*="
  | .slashEqual => "/="
  | .caretEqual => "^="
  | .lesserMinus => "<-"
  | kind => ((Kind.keywords.find? (·.2 = kind)).map (·.1)).getD ""

/-- A token that is always written in the same way. -/
def Kind.token (kind : Kind) : Token := ⟨kind, kind.text, none, 0⟩

@[simp]
lemma Kind.token_kind (kind : Kind) : kind.token.kind = kind := rfl

/-- The token of a literal value. -/
def Literal.token : Literal → Token
  | .zilch => Kind.zilchWord.token
  | .bool true => Kind.trueWord.token
  | .bool false => Kind.falseWord.token
  | .number x => ⟨.number, (Literal.number x).display, some (.number x), 0⟩
  | .string s => ⟨.string, s.quote, some (.string s), 0⟩

lemma Literal.denotes?_token (value : Literal) : value.token.denotes? = some value := by
  cases value with
  | bool b => cases b <;> rfl
  | _ => rfl

/-- The token that assigns and computes with an operator at once. -/
def Token.compound (op : Token) : Token :=
  let kind := match op.kind with
    | .plus => .plusEqual
    | .minus => .minusEqual
    | .star => .starEqual
    | .slash => .slashEqual
    | _ => .caretEqual
  ⟨kind, kind.text, none, op.line⟩

lemma Token.compound_operatorOf {equals : Token} (h : equals.kind.isCompound) :
    equals.operatorOf.compound.kind.isCompound
      ∧ equals.operatorOf.compound.operatorOf = equals.operatorOf := by
  obtain ⟨kind, lexeme, literal, line⟩ := equals
  simp only [Kind.isCompound, List.mem_cons, List.not_mem_nil, or_false, decide_eq_true_eq] at h
  rcases h with rfl | rfl | rfl | rfl | rfl <;> exact ⟨rfl, rfl⟩

/-- The operator of a compound assignment stands where operators of two operands do. -/
lemma Token.operatorOf_rung {equals : Token} (h : equals.kind.isCompound) :
    ∃ r, equals.operatorOf.kind.rung = some r ∧ 4 ≤ r ∧ r ≤ 8 := by
  obtain ⟨kind, lexeme, literal, line⟩ := equals
  simp only [Kind.isCompound, List.mem_cons, List.not_mem_nil, or_false, decide_eq_true_eq] at h
  rcases h with rfl | rfl | rfl | rfl | rfl
  · exact ⟨6, rfl, by decide, by decide⟩
  · exact ⟨6, rfl, by decide, by decide⟩
  · exact ⟨7, rfl, by decide, by decide⟩
  · exact ⟨7, rfl, by decide, by decide⟩
  · exact ⟨8, rfl, by decide, by decide⟩

/-- Texts with commas between them. -/
def withCommas : List (List Token) → List Token
  | [] => []
  | [text] => text
  | text :: texts => text ++ Kind.comma.token :: withCommas texts

lemma commas_withCommas : ∀ texts, Commas texts (withCommas texts)
  | [] => .none
  | [text] => .one text
  | _ :: text :: texts => .more rfl (List.cons_ne_nil _ _) (commas_withCommas (text :: texts))

/-! ## Expressions -/

mutual

/-- Writes an expression down. -/
def Expr.render : Tree → List Token
  | .literal value => [value.token]
  | .array items =>
    Kind.leftSquare.token :: (withCommas (Expr.renderEach items) ++ [Kind.rightSquare.token])
  | .grouping inner => Kind.leftParen.token :: (inner.render ++ [Kind.rightParen.token])
  | .unary op operand => op :: operand.render
  | .binary left op right => left.render ++ op :: right.render
  | .logical left op right => left.render ++ op :: right.render
  | .conditional condition yes no =>
    condition.render ++ Kind.question.token :: (yes.render ++ Kind.colon.token :: no.render)
  | .variable ref => [ref.name]
  | .assign ref value =>
    ref.name :: (Expr.renderCompound value).getD (Kind.equal.token :: value.render)
  | .step direction ref => [direction.kind.token, ref.name]
  | .call callee paren args =>
    callee.render ++ Kind.leftParen.token :: (withCommas (Expr.renderEach args) ++ [paren])
  | .get object name _ => object.render ++ [Kind.dot.token, name]
  | .set object name value _ =>
    object.render ++ Kind.dot.token :: name :: Kind.equal.token :: value.render
  | .receiver ref => [ref.name]
  | .inherited ref method => [ref.name, Kind.dot.token, method]

/-- Writes down what a compound assignment computes its value with, if it has to be one: its right
operand is too loose for the operator. -/
def Expr.renderCompound : Tree → Option (List Token)
  | .binary _ op right =>
    if op.kind.rung.getD 0 < right.rank then none else some (op.compound :: right.render)
  | _ => none

/-- Writes each of the expressions down. -/
def Expr.renderEach : List Tree → List (List Token)
  | [] => []
  | e :: rest => e.render :: Expr.renderEach rest

end

variable {inside : Bool} {context : Parser.Context}

/-- The value of `x op= v` is well formed by itself if `v` is tight enough. -/
lemma Expr.wellFormed_of_compound {ref : Reference Unit} {left right : Tree} {op : Token}
    (href : ref.name.kind = .identifier) (hrank : op.kind.rung.getD 0 < right.rank)
    (h : Expr.WellFormedCompound inside ref (.binary left op right)) :
    (Expr.binary left op right).WellFormed inside := by
  obtain ⟨⟨equals, hequals, rfl⟩, rfl, hright⟩ := h
  obtain ⟨r, hr, hr4, hr8⟩ := Token.operatorOf_rung hequals
  rw [hr, Option.getD_some] at hrank
  exact ⟨⟨r, hr, hr4, hr8, Nat.le_trans hr8 (Nat.le_add_right 8 2), hrank⟩, href, hright⟩

/-- An assignment is written as a compound one only if it has to be. -/
lemma Expr.renderCompound_cases {ref : Reference Unit} {value : Tree}
    (href : ref.name.kind = .identifier)
    (h : value.WellFormed inside ∨ Expr.WellFormedCompound inside ref value) :
    Expr.renderCompound value = none ∧ value.WellFormed inside
      ∨ ∃ text, Expr.renderCompound value = some text ∧ Expr.WellFormedCompound inside ref value := by
  cases value with
  | binary left op right =>
      rw [Expr.renderCompound]
      by_cases hrank : op.kind.rung.getD 0 < right.rank
      · rw [if_pos hrank]
        exact Or.inl ⟨rfl, h.elim id (Expr.wellFormed_of_compound href hrank)⟩
      · rw [if_neg hrank]
        refine Or.inr ⟨_, rfl, h.resolve_left fun h => ?_⟩
        obtain ⟨⟨r, hr, -, -, -, hlt⟩, -⟩ := h
        rw [hr] at hrank
        exact hrank hlt
  | _ =>
      simp only [Expr.WellFormedCompound, or_false] at h
      exact Or.inl ⟨rfl, h⟩

mutual

/-- What is written down for a well-formed expression spells it. -/
theorem Expr.spells_render : ∀ {e : Tree}, e.WellFormed inside → e.Spells inside e.render
  | .literal value, _ => by
      exact ⟨_, rfl, value.denotes?_token⟩
  | .array items, h => by
      obtain ⟨hfits, hitems⟩ := h
      exact ⟨_, _, _, _, rfl, rfl, rfl, commas_withCommas _, Expr.spells_renderEach hitems, hfits⟩
  | .grouping inner, h => by
      exact ⟨_, _, _, rfl, rfl, rfl, Expr.spells_render h⟩
  | .unary op operand, h => by
      obtain ⟨hfits, hoperand⟩ := h
      exact ⟨_, rfl, Expr.spells_render hoperand, hfits⟩
  | .binary left op right, h | .logical left op right, h => by
      obtain ⟨hfits, hleft, hright⟩ := h
      exact ⟨_, _, rfl, Expr.spells_render hleft, Expr.spells_render hright, hfits⟩
  | .conditional condition yes no, h => by
      obtain ⟨hfits, hcond, hyes, hno⟩ := h
      exact ⟨_, _, _, _, _, rfl, rfl, rfl, Expr.spells_render hcond, Expr.spells_render hyes,
        Expr.spells_render hno, hfits⟩
  | .variable ref, h => by
      exact ⟨rfl, h⟩
  | .assign ref value, h => by
      obtain ⟨hfits, hvalue⟩ := h
      rw [Expr.Spells, Expr.render]
      rcases Expr.renderCompound_cases hfits hvalue with ⟨hplain, hvalue⟩ | ⟨text, htext, hvalue⟩
      · rw [hplain, Option.getD_none]
        exact ⟨_, _, rfl, hfits, Or.inl ⟨rfl, Expr.spells_render hvalue⟩⟩
      · obtain ⟨equals, b, rfl, hb⟩ := Expr.spells_renderCompound htext hvalue
        rw [htext, Option.getD_some]
        exact ⟨equals, b, rfl, hfits, Or.inr hb⟩
  | .step direction ref, h => by
      exact ⟨_, rfl, rfl, h⟩
  | .call callee paren args, h => by
      obtain ⟨hfits, hcallee, hargs⟩ := h
      exact ⟨_, _, _, _, rfl, rfl, Expr.spells_render hcallee, commas_withCommas _,
        Expr.spells_renderEach hargs, hfits⟩
  | .get object name flag, h => by
      obtain ⟨hfits, hobject⟩ := h
      exact ⟨_, _, rfl, rfl, Expr.spells_render hobject, hfits⟩
  | .set object name value flag, h => by
      obtain ⟨hfits, hobject, hvalue⟩ := h
      exact ⟨_, _, _, _, rfl, rfl, rfl, Expr.spells_render hobject, Expr.spells_render hvalue, hfits⟩
  | .receiver ref, h => by
      exact ⟨rfl, h⟩
  | .inherited ref method, h => by
      exact ⟨_, rfl, rfl, h⟩

theorem Expr.spells_renderCompound {ref : Reference Unit} : ∀ {value : Tree} {text : List Token},
    Expr.renderCompound value = some text → Expr.WellFormedCompound inside ref value →
    ∃ equals b, text = equals :: b ∧ Expr.SpellsCompound inside ref equals value b
  | .binary left op right, text, htext, h => by
      obtain ⟨⟨equals, hequals, rfl⟩, rfl, hright⟩ := h
      obtain ⟨hkind, hop⟩ := Token.compound_operatorOf hequals
      rw [Expr.renderCompound] at htext
      split at htext
      · cases htext
      · cases htext
        refine ⟨_, _, rfl, ?_⟩
        exact ⟨hkind, rfl, hop.symm, Expr.spells_render hright⟩
  | .literal _, _, _, h | .array _, _, _, h | .grouping _, _, _, h | .unary _ _, _, _, h
  | .logical _ _ _, _, _, h | .conditional _ _ _, _, _, h | .variable _, _, _, h
  | .assign _ _, _, _, h | .step _ _, _, _, h | .call _ _ _, _, _, h | .get _ _ _, _, _, h
  | .set _ _ _ _, _, _, h | .receiver _, _, _, h | .inherited _ _, _, _, h => by
      simp only [Expr.WellFormedCompound] at h

theorem Expr.spells_renderEach : ∀ {items : List Tree}, Expr.WellFormedEach inside items →
    Expr.SpellsEach inside items (Expr.renderEach items)
  | [], _ => rfl
  | e :: rest, h => by
      obtain ⟨he, hrest⟩ := h
      exact ⟨_, _, rfl, Expr.spells_render he, Expr.spells_renderEach hrest⟩

end

mutual

/-- Only a well-formed expression has a spelling. -/
theorem Expr.wellFormed_of_spells : ∀ {e : Tree} {ts : List Token}, e.Spells inside ts →
    e.WellFormed inside
  | .literal _, _, _ => trivial
  | .array items, _, h => by
      obtain ⟨_, _, _, _, -, -, -, -, hitems, hfits⟩ := h
      exact ⟨hfits, Expr.wellFormedEach_of_spells hitems⟩
  | .grouping inner, _, h => by
      obtain ⟨_, _, _, -, -, -, hinner⟩ := h
      exact Expr.wellFormed_of_spells (e := inner) hinner
  | .unary op operand, _, h => by
      obtain ⟨_, -, hoperand, hfits⟩ := h
      exact ⟨hfits, Expr.wellFormed_of_spells hoperand⟩
  | .binary left op right, _, h | .logical left op right, _, h => by
      obtain ⟨_, _, -, hleft, hright, hfits⟩ := h
      exact ⟨hfits, Expr.wellFormed_of_spells hleft, Expr.wellFormed_of_spells hright⟩
  | .conditional condition yes no, _, h => by
      obtain ⟨_, _, _, _, _, -, -, -, hcond, hyes, hno, hfits⟩ := h
      exact ⟨hfits, Expr.wellFormed_of_spells hcond, Expr.wellFormed_of_spells hyes,
        Expr.wellFormed_of_spells hno⟩
  | .variable ref, _, h => by
      exact h.2
  | .assign ref value, _, h => by
      obtain ⟨_, _, -, hfits, ⟨-, hvalue⟩ | hvalue⟩ := h
      · exact ⟨hfits, Or.inl (Expr.wellFormed_of_spells hvalue)⟩
      · exact ⟨hfits, Or.inr (Expr.wellFormedCompound_of_spells hvalue)⟩
  | .step direction ref, _, h => by
      obtain ⟨_, -, -, hfits⟩ := h
      exact hfits
  | .call callee paren args, _, h => by
      obtain ⟨_, _, _, _, -, -, hcallee, -, hargs, hfits⟩ := h
      exact ⟨hfits, Expr.wellFormed_of_spells hcallee, Expr.wellFormedEach_of_spells hargs⟩
  | .get object name flag, _, h => by
      obtain ⟨_, _, -, -, hobject, hfits⟩ := h
      exact ⟨hfits, Expr.wellFormed_of_spells hobject⟩
  | .set object name value flag, _, h => by
      obtain ⟨_, _, _, _, -, -, -, hobject, hvalue, hfits⟩ := h
      exact ⟨hfits, Expr.wellFormed_of_spells hobject, Expr.wellFormed_of_spells hvalue⟩
  | .receiver ref, _, h => by
      exact h.2
  | .inherited ref method, _, h => by
      obtain ⟨_, -, -, hfits⟩ := h
      exact hfits

theorem Expr.wellFormedCompound_of_spells {ref : Reference Unit} {equals : Token} :
    ∀ {value : Tree} {ts : List Token}, Expr.SpellsCompound inside ref equals value ts →
      Expr.WellFormedCompound inside ref value
  | .binary left op right, _, h => by
      obtain ⟨hequals, hleft, hop, hright⟩ := h
      exact ⟨⟨equals, hequals, hop⟩, hleft, Expr.wellFormed_of_spells hright⟩
  | .literal _, _, h | .array _, _, h | .grouping _, _, h | .unary _ _, _, h | .logical _ _ _, _, h
  | .conditional _ _ _, _, h | .variable _, _, h | .assign _ _, _, h | .step _ _, _, h
  | .call _ _ _, _, h | .get _ _ _, _, h | .set _ _ _ _, _, h | .receiver _, _, h
  | .inherited _ _, _, h => by
      simp only [Expr.SpellsCompound] at h

theorem Expr.wellFormedEach_of_spells : ∀ {items : List Tree} {texts : List (List Token)},
    Expr.SpellsEach inside items texts → Expr.WellFormedEach inside items
  | [], _, _ => trivial
  | e :: rest, _, h => by
      obtain ⟨_, _, -, he, hrest⟩ := h
      exact ⟨Expr.wellFormed_of_spells he, Expr.wellFormedEach_of_spells hrest⟩

end

/-! ## Statements -/

/-- Writes an expression down that may be left out. -/
def Expr.renderOption : Option Tree → List Token
  | none => []
  | some e => e.render

/-- Writes a declaration of a variable down, from its name on. -/
def Token.renderVar (name : Token) : Option Tree → List Token
  | none => [name, Kind.semicolon.token]
  | some e => name :: Kind.equal.token :: (e.render ++ [Kind.semicolon.token])

/-- Writes the first clause of a `for` loop down. -/
def ForStart.render : Option (ForStart Unit) → List Token
  | none => [Kind.semicolon.token]
  | some (.var name value) => Kind.varWord.token :: name.renderVar value
  | some (.expr e) => e.render ++ [Kind.semicolon.token]

/-- Writes a routine down from its name up to the brace of its body. -/
def Token.renderHead (name : Token) (params : List Token) : List Token :=
  name :: Kind.leftParen.token
    :: (withCommas (params.map ([·])) ++ [Kind.rightParen.token, Kind.leftBrace.token])

/-- The word in front of a routine of that group, if it has one. -/
def Parser.Group.mark : Group → List Token
  | .methods => []
  | .statics => [Kind.staticWord.token]
  | .getters => [Kind.getWord.token]
  | .setters => [Kind.setWord.token]

/-- Writes the superclass of a class down, if it has one. -/
def Reference.renderSuperclass : Option (Reference Unit) → List Token
  | none => []
  | some ref => [Kind.lesserMinus.token, ref.name]

mutual

/-- Writes a statement down. -/
def Stmt.render : Item → List Token
  | .expr e => e.render ++ [Kind.semicolon.token]
  | .echo e => e.render ++ [Kind.semicolon.token]
  | .var name value => Kind.varWord.token :: name.renderVar value
  | .block body => Kind.leftBrace.token :: (Stmt.renderAll body ++ [Kind.rightBrace.token])
  | .exit keyword code => keyword :: (code.render ++ [Kind.semicolon.token])
  | .branch test yes no =>
    Kind.ifWord.token :: Kind.leftParen.token
      :: (test.render ++ Kind.rightParen.token :: (yes.render ++ Stmt.renderElse no))
  | .loop test body =>
    Kind.whileWord.token :: Kind.leftParen.token
      :: (test.render ++ Kind.rightParen.token :: body.render)
  | .forLoop start test after body =>
    Kind.forWord.token :: Kind.leftParen.token
      :: (ForStart.render start ++ (test.render ++ Kind.semicolon.token
        :: (Expr.renderOption after ++ Kind.rightParen.token :: body.render)))
  | .step direction ref => [direction.kind.token, ref.name, Kind.semicolon.token]
  | .jump _ keyword => [keyword, Kind.semicolon.token]
  | .routine ⟨name, params, body⟩ =>
    Kind.subWord.token
      :: (name.renderHead params ++ (Stmt.renderAll body ++ [Kind.rightBrace.token]))
  | .giveBack keyword value => keyword :: (Expr.renderOption value ++ [Kind.semicolon.token])
  | .classDecl name superclass methods statics getters setters =>
    let members := Stmt.renderRoutines .methods methods ++ Stmt.renderRoutines .statics statics
      ++ Stmt.renderRoutines .getters getters ++ Stmt.renderRoutines .setters setters
    Kind.classWord.token :: name :: (Reference.renderSuperclass superclass
      ++ Kind.leftBrace.token :: (members.flatten ++ [Kind.rightBrace.token]))

/-- Writes statements down, one after the other. -/
def Stmt.renderAll : List Item → List Token
  | [] => []
  | s :: rest => s.render ++ Stmt.renderAll rest

/-- Writes the `else` of an `if` down, if it has one. -/
def Stmt.renderElse : Option Item → List Token
  | none => []
  | some s => Kind.elseWord.token :: s.render

/-- Writes each of the routines of a group down. -/
def Stmt.renderRoutines (group : Group) : List (Routine Item) → List (List Token)
  | [] => []
  | ⟨name, params, body⟩ :: rest =>
    (group.mark ++ (name.renderHead params ++ (Stmt.renderAll body ++ [Kind.rightBrace.token])))
      :: Stmt.renderRoutines group rest

end

/-- Writes a program down. -/
def Program.render (program : Program Unit) : List Token := Stmt.renderAll program

lemma Expr.spells_renderOption {value : Option Tree} (h : ∀ e ∈ value, e.WellFormed inside) :
    Expr.SpellsOption inside value (Expr.renderOption value) := by
  cases value with
  | none => rfl
  | some e => exact Expr.spells_render (h e rfl)

lemma Token.spells_renderVar {name : Token} {value : Option Tree}
    (h : ∀ e ∈ value, e.WellFormed inside) : name.SpellsVar inside value (name.renderVar value) := by
  cases value with
  | none => exact ⟨_, rfl, rfl⟩
  | some e => exact ⟨_, _, _, rfl, rfl, rfl, Expr.spells_render (h e rfl)⟩

lemma ForStart.spells_render {start : Option (ForStart Unit)} (h : ForStart.WellFormed inside start) :
    ForStart.Spells inside start (ForStart.render start) := by
  match start, h with
  | none, _ => exact ⟨_, rfl, rfl⟩
  | some (.var name value), h => exact ⟨_, _, rfl, rfl, Token.spells_renderVar h⟩
  | some (.expr e), h => exact ⟨_, _, rfl, rfl, Expr.spells_render h⟩

lemma Token.spells_renderHead (name : Token) (params : List Token) :
    name.SpellsHead params (name.renderHead params) :=
  ⟨_, _, _, _, rfl, rfl, rfl, rfl, commas_withCommas _⟩

lemma Parser.Group.marks_mark (group : Group) : group.Marks group.mark := by
  cases group with
  | methods => rfl
  | _ => exact ⟨_, rfl, rfl⟩

lemma Reference.spells_renderSuperclass (superclass : Option (Reference Unit)) :
    Reference.SpellsSuperclass superclass (Reference.renderSuperclass superclass) := by
  cases superclass with
  | none => rfl
  | some ref => exact ⟨_, rfl, rfl⟩

/-- Texts that belong to a group. -/
def Parser.Group.tag (group : Group) (texts : List (List Token)) : List (Group × List Token) :=
  texts.map (group, ·)

lemma ofGroup_tag_append {group g : Group} {texts : List (List Token)}
    {more : List (Group × List Token)} :
    ofGroup group (g.tag texts ++ more)
      = if g = group then texts ++ ofGroup group more else ofGroup group more := by
  by_cases h : g = group <;>
    simp [ofGroup, Parser.Group.tag, List.filter_map, Function.comp_def, h]

lemma map_snd_tag {group : Group} {texts : List (List Token)} :
    (group.tag texts).map Prod.snd = texts := by
  simp [Parser.Group.tag, Function.comp_def]

mutual

/-- What is written down for a well-formed statement spells it. -/
theorem Stmt.spells_render : ∀ {context : Parser.Context} {s : Item}, s.WellFormed context →
    s.Spells context s.render
  | _, .expr e, h => by
      obtain ⟨hfits, he⟩ := h
      exact ⟨_, _, rfl, rfl, Expr.spells_render he, hfits⟩
  | _, .echo e, h => by
      exact h.elim
  | _, .var name value, h => by
      obtain ⟨hfits, hvalue⟩ := h
      exact ⟨_, _, rfl, rfl, Token.spells_renderVar hvalue, hfits⟩
  | _, .block body, h => by
      exact ⟨_, _, _, rfl, rfl, rfl, Stmt.spells_renderAll h⟩
  | _, .exit keyword code, h => by
      obtain ⟨hfits, hcode⟩ := h
      exact ⟨_, _, rfl, rfl, Or.inl (Expr.spells_render hcode), hfits⟩
  | _, .branch test yes no, h => by
      obtain ⟨hfits, htest, hyes, hno⟩ := h
      exact ⟨_, _, _, _, _, _, rfl, rfl, rfl, rfl, Expr.spells_render htest, Stmt.spells_render hyes,
        Stmt.spells_renderElse hno, hfits⟩
  | _, .loop test body, h => by
      obtain ⟨hfits, htest, hbody⟩ := h
      exact ⟨_, _, _, _, _, rfl, rfl, rfl, rfl, Expr.spells_render htest, Stmt.spells_render hbody,
        hfits⟩
  | _, .forLoop start test after body, h => by
      obtain ⟨hfits, hstart, htest, hafter, hbody⟩ := h
      exact ⟨_, _, _, _, _, _, _, _, rfl, rfl, rfl, rfl, rfl, ForStart.spells_render hstart,
        Or.inl (Expr.spells_render htest), Expr.spells_renderOption hafter, Stmt.spells_render hbody,
        hfits⟩
  | _, .step direction ref, h => by
      exact ⟨_, _, rfl, rfl, rfl, h⟩
  | _, .jump j keyword, h => by
      exact ⟨_, rfl, rfl, h⟩
  | _, .routine ⟨name, params, body⟩, h => by
      obtain ⟨hfits, hbody⟩ := h
      exact ⟨_, _, _, _, rfl, rfl, rfl, name.spells_renderHead params, Stmt.spells_renderAll hbody,
        hfits⟩
  | _, .giveBack keyword value, h => by
      obtain ⟨hfits, hvalue⟩ := h
      exact ⟨_, _, rfl, rfl, Expr.spells_renderOption hvalue, hfits⟩
  | _, .classDecl name superclass methods statics getters setters, h => by
      obtain ⟨hfits, hm, hs, hg, ht⟩ := h
      refine ⟨Kind.classWord.token, Reference.renderSuperclass superclass, Kind.leftBrace.token,
        Group.methods.tag (Stmt.renderRoutines .methods methods)
          ++ (Group.statics.tag (Stmt.renderRoutines .statics statics)
          ++ (Group.getters.tag (Stmt.renderRoutines .getters getters)
          ++ (Group.setters.tag (Stmt.renderRoutines .setters setters) ++ []))),
        Kind.rightBrace.token, ?_, rfl, rfl, rfl, Reference.spells_renderSuperclass superclass,
        ?_, ?_, ?_, ?_, hfits⟩
      · simp only [Stmt.render, List.map_append, map_snd_tag, List.append_assoc, List.append_nil]
      all_goals simp only [ofGroup_tag_append, reduceCtorEq, if_true, if_false]
      · simpa [ofGroup] using Stmt.spells_renderRoutines hm
      · simpa [ofGroup] using Stmt.spells_renderRoutines hs
      · simpa [ofGroup] using Stmt.spells_renderRoutines hg
      · simpa [ofGroup] using Stmt.spells_renderRoutines ht

theorem Stmt.spells_renderAll : ∀ {context : Parser.Context} {items : List Item},
    Stmt.WellFormedAll context items → Stmt.SpellsAll context items (Stmt.renderAll items)
  | _, [], _ => rfl
  | _, s :: rest, h => by
      obtain ⟨hs, hrest⟩ := h
      exact ⟨_, _, rfl, Stmt.spells_render hs, Stmt.spells_renderAll hrest⟩

theorem Stmt.spells_renderElse : ∀ {context : Parser.Context} {no : Option Item},
    Stmt.WellFormedOption context no → Stmt.SpellsElse context no (Stmt.renderElse no)
  | _, none, _ => rfl
  | _, some s, h => by
      exact ⟨_, _, rfl, rfl, Stmt.spells_render h⟩

theorem Stmt.spells_renderRoutines {group : Group} : ∀ {context : Parser.Context}
    {routines : List (Routine Item)}, Stmt.WellFormedRoutines context routines →
    Stmt.SpellsRoutines context group routines (Stmt.renderRoutines group routines)
  | _, [], _ => rfl
  | _, ⟨name, params, body⟩ :: rest, h => by
      obtain ⟨hbody, hrest⟩ := h
      exact ⟨_, _, _, _, _, rfl, group.marks_mark, rfl, name.spells_renderHead params,
        Stmt.spells_renderAll hbody, Stmt.spells_renderRoutines hrest⟩

end

lemma Expr.wellFormed_of_spellsOption {value : Option Tree} {ts : List Token}
    (h : Expr.SpellsOption inside value ts) : ∀ e ∈ value, e.WellFormed inside := by
  rintro e rfl
  exact Expr.wellFormed_of_spells h

lemma Token.wellFormed_of_spellsVar {name : Token} {value : Option Tree} {ts : List Token}
    (h : name.SpellsVar inside value ts) : ∀ e ∈ value, e.WellFormed inside := by
  rintro e rfl
  obtain ⟨_, _, _, -, -, -, he⟩ := h
  exact Expr.wellFormed_of_spells he

lemma ForStart.wellFormed_of_spells {start : Option (ForStart Unit)} {ts : List Token}
    (h : ForStart.Spells inside start ts) : ForStart.WellFormed inside start := by
  match start, h with
  | none, _ => trivial
  | some (.var name value), ⟨_, _, _, _, hvar⟩ => exact Token.wellFormed_of_spellsVar hvar
  | some (.expr e), ⟨_, _, _, _, he⟩ => exact Expr.wellFormed_of_spells he

mutual

/-- Only a well-formed statement has a spelling. -/
theorem Stmt.wellFormed_of_spells : ∀ {context : Parser.Context} {s : Item} {ts : List Token},
    s.Spells context ts → s.WellFormed context
  | _, .expr e, _, h => by
      obtain ⟨_, _, -, -, he, hfits⟩ := h
      exact ⟨hfits, Expr.wellFormed_of_spells he⟩
  | _, .echo e, _, h => by
      exact h.elim
  | _, .var name value, _, h => by
      obtain ⟨_, _, -, -, hvar, hfits⟩ := h
      exact ⟨hfits, Token.wellFormed_of_spellsVar hvar⟩
  | _, .block body, _, h => by
      obtain ⟨_, _, _, -, -, -, hbody⟩ := h
      exact Stmt.wellFormedAll_of_spells hbody
  | context, .exit keyword code, _, h => by
      obtain ⟨_, _, -, -, hcode, hfits⟩ := h
      have hwell : code.WellFormed context.inClass := by
        rcases hcode with hcode | ⟨-, rfl⟩
        · exact Expr.wellFormed_of_spells hcode
        · trivial
      exact ⟨hfits, hwell⟩
  | _, .branch test yes no, _, h => by
      obtain ⟨_, _, _, _, _, _, -, -, -, -, htest, hyes, hno, hfits⟩ := h
      exact ⟨hfits, Expr.wellFormed_of_spells htest, Stmt.wellFormed_of_spells hyes,
        Stmt.wellFormedOption_of_spells hno⟩
  | _, .loop test body, _, h => by
      obtain ⟨_, _, _, _, _, -, -, -, -, htest, hbody, hfits⟩ := h
      exact ⟨hfits, Expr.wellFormed_of_spells htest, Stmt.wellFormed_of_spells hbody⟩
  | context, .forLoop start test after body, _, h => by
      obtain ⟨_, _, _, _, _, _, _, _, -, -, -, -, -, hstart, htest, hafter, hbody, hfits⟩ := h
      have hwell : test.WellFormed context.inClass := by
        rcases htest with htest | ⟨-, rfl⟩
        · exact Expr.wellFormed_of_spells htest
        · trivial
      exact ⟨hfits, ForStart.wellFormed_of_spells hstart, hwell,
        Expr.wellFormed_of_spellsOption hafter, Stmt.wellFormed_of_spells hbody⟩
  | _, .step direction ref, _, h => by
      obtain ⟨_, _, -, -, -, hfits⟩ := h
      exact hfits
  | _, .jump j keyword, _, h => by
      obtain ⟨_, -, -, hfits⟩ := h
      exact hfits
  | _, .routine ⟨name, params, body⟩, _, h => by
      obtain ⟨_, _, _, _, -, -, -, -, hbody, hfits⟩ := h
      exact ⟨hfits, Stmt.wellFormedAll_of_spells hbody⟩
  | _, .giveBack keyword value, _, h => by
      obtain ⟨_, _, -, -, hvalue, hfits⟩ := h
      exact ⟨hfits, Expr.wellFormed_of_spellsOption hvalue⟩
  | _, .classDecl name superclass methods statics getters setters, _, h => by
      obtain ⟨_, _, _, _, _, -, -, -, -, -, hm, hs, hg, ht, hfits⟩ := h
      exact ⟨hfits, Stmt.wellFormedRoutines_of_spells hm, Stmt.wellFormedRoutines_of_spells hs,
        Stmt.wellFormedRoutines_of_spells hg, Stmt.wellFormedRoutines_of_spells ht⟩

theorem Stmt.wellFormedAll_of_spells : ∀ {context : Parser.Context} {items : List Item}
    {ts : List Token}, Stmt.SpellsAll context items ts → Stmt.WellFormedAll context items
  | _, [], _, _ => trivial
  | _, s :: rest, _, h => by
      obtain ⟨_, _, -, hs, hrest⟩ := h
      exact ⟨Stmt.wellFormed_of_spells hs, Stmt.wellFormedAll_of_spells hrest⟩

theorem Stmt.wellFormedOption_of_spells : ∀ {context : Parser.Context} {no : Option Item}
    {ts : List Token}, Stmt.SpellsElse context no ts → Stmt.WellFormedOption context no
  | _, none, _, _ => trivial
  | _, some s, _, h => by
      obtain ⟨_, _, -, -, hs⟩ := h
      exact Stmt.wellFormed_of_spells hs

theorem Stmt.wellFormedRoutines_of_spells {group : Group} : ∀ {context : Parser.Context}
    {routines : List (Routine Item)} {texts : List (List Token)},
    Stmt.SpellsRoutines context group routines texts → Stmt.WellFormedRoutines context routines
  | _, [], _, _ => trivial
  | _, ⟨name, params, body⟩ :: rest, _, h => by
      obtain ⟨_, _, _, _, _, -, -, -, -, hbody, hrest⟩ := h
      exact ⟨Stmt.wellFormedAll_of_spells hbody, Stmt.wellFormedRoutines_of_spells hrest⟩

end

end KScript

import KScript.Syntax.Parser.Statement

/-!
# The grammar of expressions, as a relation

Which tokens spell an expression.  The relation is written down tree by tree and knows nothing of
how an expression is read:

* `Kind.rung` places the tokens that go on with an expression on the ladder of operators, and
  `Expr.rank` places the expressions themselves;
* `Expr.Fits` is what one node asks of its tokens and of the ranks of its parts.  An operand that is
  too loose for its place does not fit, so that parentheses can be neither added nor left out;
* `Expr.Spells` relates an expression to the tokens that spell it.  A tree has more than one spelling
  only where the language has two ways to write the same thing: `x op= v` for `x = x op v`, and `inf`
  for a number that is infinite;
* `Expr.WellFormed` says of a tree alone that it fits at every node.
-/

namespace KScript

open KScript.Parser (Tree)

/-! ## The ladder -/

/-- The rung of the ladder on which a token of that kind goes on with an expression, from the loosest
(assignment) to the tightest (calls and properties). -/
def Kind.rung : Kind → Option Nat
  | .equal | .plusEqual | .minusEqual | .starEqual | .slashEqual | .caretEqual => some 0
  | .orWord => some 1
  | .andWord => some 2
  | .question => some 3
  | .bangEqual | .equalEqual => some 4
  | .greater | .greaterEqual | .lesser | .lesserEqual => some 5
  | .plus | .minus => some 6
  | .slash | .star | .modWord | .divWord => some 7
  | .caret => some 8
  | .leftParen | .dot => some 10
  | _ => none

/-- Nothing goes on at that rung or at a tighter one. -/
def Ends (k : Nat) (rest : List Token) : Prop := ∀ t ∈ rest.head?, ∀ r ∈ t.kind.rung, r < k

namespace Expr

/-- The rung of the ladder on which an expression stands. -/
def rank : Tree → Nat
  | .assign _ _ => 0
  | .set _ _ _ _ => 0
  | .logical _ op _ => op.kind.rung.getD 0
  | .conditional _ _ _ => 3
  | .binary _ op _ => op.kind.rung.getD 0
  | .unary _ _ => 9
  | _ => 10

/-- Whether an expression ends with the last branch of a conditional, which takes in all that it can
of what follows. -/
def endsOpen : Tree → Bool
  | .conditional _ _ _ => true
  | .logical _ _ right => endsOpen right
  | _ => false

/-- Whether an expression begins with `inc` or `dec`. -/
def beginsWithStep : Tree → Bool
  | .step _ _ => true
  | .binary left _ _ => beginsWithStep left
  | .logical left _ _ => beginsWithStep left
  | .conditional condition _ _ => beginsWithStep condition
  | .call callee _ _ => beginsWithStep callee
  | .get object _ _ => beginsWithStep object
  | .set object _ _ _ => beginsWithStep object
  | _ => false

/-- What a node asks of its own tokens and of the ranks of its parts; `inside` says whether it is
written in a class body. -/
def Fits (inside : Bool) : Tree → Prop
  | .literal _ => True
  | .array items => items.length ≤ Listing.limit ∧ ∀ e ∈ items, 1 ≤ e.rank
  | .grouping _ => True
  | .unary op operand => op.kind ∈ [.bang, .minus] ∧ 9 ≤ operand.rank
  | .binary left op right =>
    ∃ r, op.kind.rung = some r ∧ 4 ≤ r ∧ r ≤ 8 ∧ r ≤ left.rank ∧ r < right.rank
  | .logical left op right =>
    ∃ r, op.kind.rung = some r ∧ 1 ≤ r ∧ r ≤ 2 ∧ r ≤ left.rank ∧ r < right.rank
      ∧ left.endsOpen = false
  | .conditional condition _ _ => 4 ≤ condition.rank
  | .variable ref => ref.name.kind = .identifier
  | .assign ref _ => ref.name.kind = .identifier
  | .step _ ref => ref.name.kind = .identifier
  | .call callee paren args =>
    callee.rank = 10 ∧ paren.kind = .rightParen ∧ args.length ≤ Listing.limit
  | .get object name flag => object.rank = 10 ∧ name.kind = .identifier ∧ flag = inside
  | .set object name _ flag => object.rank = 10 ∧ name.kind = .identifier ∧ flag = inside
  | .receiver ref => ref.name.kind = .thisWord
  | .inherited ref method => ref.name.kind = .superWord ∧ method.kind = .identifier

end Expr

/-! ## Spelling -/

/-- The literal value that a token stands for. -/
def Token.denotes? (t : Token) : Option Literal :=
  match t.kind with
  | .falseWord => some (.bool false)
  | .trueWord => some (.bool true)
  | .zilchWord => some .zilch
  | .infWord => some (.number Double.infinity)
  | .number => some (t.literal.getD .zilch)
  | .string => some (t.literal.getD .zilch)
  | _ => none

/-- Texts with a comma between any two of them. -/
inductive Commas : List (List Token) → List Token → Prop where
  | none : Commas [] []
  | one (text : List Token) : Commas [text] text
  | more {comma : Token} {text : List Token} {texts : List (List Token)} {rest : List Token}
      (kind : comma.kind = .comma) (nonempty : texts ≠ []) (tail : Commas texts rest) :
      Commas (text :: texts) (text ++ comma :: rest)

/-- The reserved word of a counting step. -/
def Direction.kind : Direction → Kind
  | .up => .incWord
  | .down => .decWord

/-- The tokens that assign and compute at once. -/
def Kind.isCompound (kind : Kind) : Bool :=
  kind ∈ [Kind.plusEqual, .minusEqual, .starEqual, .slashEqual, .caretEqual]

/-- The operator that a compound assignment computes with. -/
def Token.operatorOf (equals : Token) : Token :=
  let op := Parser.compoundOperator equals.kind
  ⟨op.1, op.2, none, equals.line⟩

mutual

/-- The tokens spell the expression, and it fits at every node. -/
def Expr.Spells (inside : Bool) : Tree → List Token → Prop
  | .literal value, ts => ∃ t, ts = [t] ∧ t.denotes? = some value
  | .array items, ts =>
    ∃ left mid right texts, ts = left :: (mid ++ [right]) ∧ left.kind = .leftSquare
      ∧ right.kind = .rightSquare ∧ Commas texts mid ∧ Expr.SpellsEach inside items texts
      ∧ Expr.Fits inside (.array items)
  | .grouping inner, ts =>
    ∃ left mid right, ts = left :: (mid ++ [right]) ∧ left.kind = .leftParen
      ∧ right.kind = .rightParen ∧ inner.Spells inside mid
  | .unary op operand, ts =>
    ∃ b, ts = op :: b ∧ operand.Spells inside b ∧ Expr.Fits inside (.unary op operand)
  | .binary left op right, ts =>
    ∃ a b, ts = a ++ op :: b ∧ left.Spells inside a ∧ right.Spells inside b
      ∧ Expr.Fits inside (.binary left op right)
  | .logical left op right, ts =>
    ∃ a b, ts = a ++ op :: b ∧ left.Spells inside a ∧ right.Spells inside b
      ∧ Expr.Fits inside (.logical left op right)
  | .conditional condition yes no, ts =>
    ∃ a question b colon c, ts = a ++ question :: (b ++ colon :: c)
      ∧ question.kind = .question ∧ colon.kind = .colon
      ∧ condition.Spells inside a ∧ yes.Spells inside b ∧ no.Spells inside c
      ∧ Expr.Fits inside (.conditional condition yes no)
  | .variable ref, ts => ts = [ref.name] ∧ Expr.Fits inside (.variable ref)
  | .assign ref value, ts =>
    ∃ equals b, ts = ref.name :: equals :: b ∧ Expr.Fits inside (.assign ref value)
      ∧ (equals.kind = .equal ∧ value.Spells inside b
        ∨ Expr.SpellsCompound inside ref equals value b)
  | .step direction ref, ts =>
    ∃ word, ts = [word, ref.name] ∧ word.kind = direction.kind
      ∧ Expr.Fits inside (.step direction ref)
  | .call callee paren args, ts =>
    ∃ a left mid texts, ts = a ++ left :: (mid ++ [paren]) ∧ left.kind = .leftParen
      ∧ callee.Spells inside a ∧ Commas texts mid ∧ Expr.SpellsEach inside args texts
      ∧ Expr.Fits inside (.call callee paren args)
  | .get object name flag, ts =>
    ∃ a dot, ts = a ++ [dot, name] ∧ dot.kind = .dot ∧ object.Spells inside a
      ∧ Expr.Fits inside (.get object name flag)
  | .set object name value flag, ts =>
    ∃ a dot equals b, ts = a ++ dot :: name :: equals :: b ∧ dot.kind = .dot
      ∧ equals.kind = .equal ∧ object.Spells inside a ∧ value.Spells inside b
      ∧ Expr.Fits inside (.set object name value flag)
  | .receiver ref, ts => ts = [ref.name] ∧ Expr.Fits inside (.receiver ref)
  | .inherited ref method, ts =>
    ∃ dot, ts = [ref.name, dot, method] ∧ dot.kind = .dot
      ∧ Expr.Fits inside (.inherited ref method)

/-- The tokens spell what a compound assignment to that reference computes its value with. -/
def Expr.SpellsCompound (inside : Bool) (ref : Reference Unit) (equals : Token) :
    Tree → List Token → Prop
  | .binary left op right, ts =>
    equals.kind.isCompound ∧ left = .variable ref ∧ op = equals.operatorOf ∧ right.Spells inside ts
  | _, _ => False

/-- The texts spell the expressions, one each. -/
def Expr.SpellsEach (inside : Bool) : List Tree → List (List Token) → Prop
  | [], texts => texts = []
  | e :: rest, texts =>
    ∃ text more, texts = text :: more ∧ e.Spells inside text ∧ Expr.SpellsEach inside rest more

end

mutual

/-- The expression fits at every node; the value of `x op= v` may have a looser right operand. -/
def Expr.WellFormed (inside : Bool) : Tree → Prop
  | .literal _ => True
  | .array items => Expr.Fits inside (.array items) ∧ Expr.WellFormedEach inside items
  | .grouping inner => inner.WellFormed inside
  | .unary op operand => Expr.Fits inside (.unary op operand) ∧ operand.WellFormed inside
  | .binary left op right =>
    Expr.Fits inside (.binary left op right) ∧ left.WellFormed inside ∧ right.WellFormed inside
  | .logical left op right =>
    Expr.Fits inside (.logical left op right) ∧ left.WellFormed inside ∧ right.WellFormed inside
  | .conditional condition yes no =>
    Expr.Fits inside (.conditional condition yes no) ∧ condition.WellFormed inside
      ∧ yes.WellFormed inside ∧ no.WellFormed inside
  | .variable ref => Expr.Fits inside (.variable ref)
  | .assign ref value =>
    Expr.Fits inside (.assign ref value)
      ∧ (value.WellFormed inside ∨ Expr.WellFormedCompound inside ref value)
  | .step direction ref => Expr.Fits inside (.step direction ref)
  | .call callee paren args =>
    Expr.Fits inside (.call callee paren args) ∧ callee.WellFormed inside
      ∧ Expr.WellFormedEach inside args
  | .get object name flag =>
    Expr.Fits inside (.get object name flag) ∧ object.WellFormed inside
  | .set object name value flag =>
    Expr.Fits inside (.set object name value flag) ∧ object.WellFormed inside
      ∧ value.WellFormed inside
  | .receiver ref => Expr.Fits inside (.receiver ref)
  | .inherited ref method => Expr.Fits inside (.inherited ref method)

/-- The value can be that of a compound assignment to that reference. -/
def Expr.WellFormedCompound (inside : Bool) (ref : Reference Unit) : Tree → Prop
  | .binary left op right =>
    (∃ equals : Token, equals.kind.isCompound ∧ op = equals.operatorOf) ∧ left = .variable ref
      ∧ right.WellFormed inside
  | _ => False

/-- The expressions are well formed. -/
def Expr.WellFormedEach (inside : Bool) : List Tree → Prop
  | [] => True
  | e :: rest => e.WellFormed inside ∧ Expr.WellFormedEach inside rest

end

end KScript

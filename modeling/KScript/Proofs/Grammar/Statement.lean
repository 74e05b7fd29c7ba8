import KScript.Proofs.Grammar.Expression

/-!
# The grammar of statements, as a relation

Which tokens spell a statement, in the manner of the relation for expressions: `Stmt.Fits` is what one
node asks, `Stmt.Spells` relates a statement to the tokens that spell it, and `Stmt.WellFormed` says
of a tree alone that it fits at every node.

Here too there are two ways to write some things: a condition of a `for` loop that is `true` may be
left out, `exit;` stands for `exit 0;`, and the routines of a class may come in any order that keeps
the order within each group.
-/

namespace KScript

open KScript.Parser (Tree Item Group ofGroup)

namespace Stmt

/-- Whether a statement declares a name.  Such a statement can only stand where statements are listed. -/
def isDeclaration : Item → Bool
  | .var _ _ => true
  | .routine _ => true
  | .classDecl _ _ _ _ _ _ => true
  | _ => false

/-- Whether a statement ends with an `if` that has no `else`, which takes one that follows. -/
def endsInIf : Item → Bool
  | .branch _ _ none => true
  | .branch _ _ (some no) => endsInIf no
  | .loop _ body => endsInIf body
  | .forLoop _ _ _ body => endsInIf body
  | _ => false

end Stmt

/-- The reserved word of a jump. -/
def Jump.kind : Jump → Kind
  | .breakLoop => .breakWord
  | .continueLoop => .continueWord

/-- What a routine asks of its name and its parameters. -/
def Routine.Fits (form : RoutineForm) (r : Routine Item) : Prop :=
  r.name.kind = .identifier ∧ (∀ p ∈ r.params, p.kind = .identifier)
    ∧ r.params.length ≤ Listing.limit
    ∧ (form = .getter → r.params.length = 0) ∧ (form = .setter → r.params.length = 1)

/-- What the first clause of a `for` loop asks. -/
def ForStart.Fits : Option (ForStart Unit) → Prop
  | some (.var name _) => name.kind = .identifier
  | _ => True

/-- What a node asks of its own tokens and of its parts. -/
def Stmt.Fits (context : Parser.Context) : Item → Prop
  | .expr e => e.beginsWithStep = false
  | .echo _ => False
  | .var name _ => name.kind = .identifier
  | .block _ => True
  | .exit keyword _ => keyword.kind = .exitWord
  | .branch _ yes no =>
    yes.isDeclaration = false ∧ ∀ s ∈ no, s.isDeclaration = false ∧ yes.endsInIf = false
  | .loop _ body => body.isDeclaration = false
  | .forLoop start _ _ body => ForStart.Fits start ∧ body.isDeclaration = false
  | .step _ ref => ref.name.kind = .identifier
  | .jump j keyword => context.inLoop = true ∧ keyword.kind = j.kind
  | .routine decl => decl.Fits .subroutine
  | .giveBack keyword _ => keyword.kind = .returnWord
  | .classDecl name superclass methods statics getters setters =>
    name.kind = .identifier ∧ (∀ ref ∈ superclass, ref.name.kind = .identifier)
      ∧ (∀ r ∈ methods, r.Fits .method) ∧ (∀ r ∈ statics, r.Fits .method)
      ∧ (∀ r ∈ getters, r.Fits .getter) ∧ (∀ r ∈ setters, r.Fits .setter)

/-! ## Spelling -/

/-- The tokens spell an expression that may be left out. -/
def Expr.SpellsOption (inside : Bool) : Option Tree → List Token → Prop
  | none, ts => ts = []
  | some e, ts => e.Spells inside ts

/-- The tokens spell a declaration of a variable from its name on. -/
def Token.SpellsVar (name : Token) (inside : Bool) (value : Option Tree) (ts : List Token) : Prop :=
  match value with
  | none => ∃ semicolon, ts = [name, semicolon] ∧ semicolon.kind = .semicolon
  | some e =>
    ∃ equals a semicolon, ts = name :: equals :: (a ++ [semicolon]) ∧ equals.kind = .equal
      ∧ semicolon.kind = .semicolon ∧ e.Spells inside a

/-- The tokens spell the first clause of a `for` loop, with its semicolon. -/
def ForStart.Spells (inside : Bool) : Option (ForStart Unit) → List Token → Prop
  | none, ts => ∃ semicolon, ts = [semicolon] ∧ semicolon.kind = .semicolon
  | some (.var name value), ts =>
    ∃ word b, ts = word :: b ∧ word.kind = .varWord ∧ name.SpellsVar inside value b
  | some (.expr e), ts =>
    ∃ a semicolon, ts = a ++ [semicolon] ∧ semicolon.kind = .semicolon ∧ e.Spells inside a

/-- The tokens spell a routine from its name up to the brace of its body. -/
def Token.SpellsHead (name : Token) (params : List Token) (ts : List Token) : Prop :=
  ∃ left mid right brace, ts = name :: left :: (mid ++ [right, brace]) ∧ left.kind = .leftParen
    ∧ right.kind = .rightParen ∧ brace.kind = .leftBrace ∧ Commas (params.map ([·])) mid

/-- The tokens in front of a routine that put it into its group. -/
def Parser.Group.Marks : Group → List Token → Prop
  | .methods, ts => ts = []
  | .statics, ts => ∃ word, ts = [word] ∧ word.kind = .staticWord
  | .getters, ts => ∃ word, ts = [word] ∧ word.kind = .getWord
  | .setters, ts => ∃ word, ts = [word] ∧ word.kind = .setWord

/-- The tokens spell the superclass of a class, if it has one. -/
def Reference.SpellsSuperclass : Option (Reference Unit) → List Token → Prop
  | none, ts => ts = []
  | some ref, ts => ∃ arrow, ts = [arrow, ref.name] ∧ arrow.kind = .lesserMinus

mutual

/-- The tokens spell the statement, and it fits at every node. -/
def Stmt.Spells (context : Parser.Context) : Item → List Token → Prop
  | .expr e, ts =>
    ∃ a semicolon, ts = a ++ [semicolon] ∧ semicolon.kind = .semicolon
      ∧ e.Spells context.inClass a ∧ Stmt.Fits context (.expr e)
  | .echo _, _ => False
  | .var name value, ts =>
    ∃ word b, ts = word :: b ∧ word.kind = .varWord ∧ name.SpellsVar context.inClass value b
      ∧ Stmt.Fits context (.var name value)
  | .block body, ts =>
    ∃ left mid right, ts = left :: (mid ++ [right]) ∧ left.kind = .leftBrace
      ∧ right.kind = .rightBrace ∧ Stmt.SpellsAll context body mid
  | .exit keyword code, ts =>
    ∃ a semicolon, ts = keyword :: (a ++ [semicolon]) ∧ semicolon.kind = .semicolon
      ∧ (code.Spells context.inClass a ∨ a = [] ∧ code = .literal (.number (Double.ofNat 0)))
      ∧ Stmt.Fits context (.exit keyword code)
  | .branch test yes no, ts =>
    ∃ word left a right b c, ts = word :: left :: (a ++ right :: (b ++ c)) ∧ word.kind = .ifWord
      ∧ left.kind = .leftParen ∧ right.kind = .rightParen
      ∧ test.Spells context.inClass a ∧ yes.Spells context b ∧ Stmt.SpellsElse context no c
      ∧ Stmt.Fits context (.branch test yes no)
  | .loop test body, ts =>
    ∃ word left a right b, ts = word :: left :: (a ++ right :: b) ∧ word.kind = .whileWord
      ∧ left.kind = .leftParen ∧ right.kind = .rightParen
      ∧ test.Spells context.inClass a ∧ body.Spells { context with inLoop := true } b
      ∧ Stmt.Fits context (.loop test body)
  | .forLoop start test after body, ts =>
    ∃ word left a b semicolon c right d,
      ts = word :: left :: (a ++ (b ++ semicolon :: (c ++ right :: d))) ∧ word.kind = .forWord
      ∧ left.kind = .leftParen ∧ semicolon.kind = .semicolon ∧ right.kind = .rightParen
      ∧ ForStart.Spells context.inClass start a
      ∧ (test.Spells context.inClass b ∨ b = [] ∧ test = .literal (.bool true))
      ∧ Expr.SpellsOption context.inClass after c
      ∧ body.Spells { context with inLoop := true } d
      ∧ Stmt.Fits context (.forLoop start test after body)
  | .step direction ref, ts =>
    ∃ word semicolon, ts = [word, ref.name, semicolon] ∧ word.kind = direction.kind
      ∧ semicolon.kind = .semicolon ∧ Stmt.Fits context (.step direction ref)
  | .jump j keyword, ts =>
    ∃ semicolon, ts = [keyword, semicolon] ∧ semicolon.kind = .semicolon
      ∧ Stmt.Fits context (.jump j keyword)
  | .routine ⟨name, params, body⟩, ts =>
    ∃ word head mid right, ts = word :: (head ++ (mid ++ [right])) ∧ word.kind = .subWord
      ∧ right.kind = .rightBrace ∧ name.SpellsHead params head
      ∧ Stmt.SpellsAll { context with inLoop := false } body mid
      ∧ Stmt.Fits context (.routine ⟨name, params, body⟩)
  | .giveBack keyword value, ts =>
    ∃ a semicolon, ts = keyword :: (a ++ [semicolon]) ∧ semicolon.kind = .semicolon
      ∧ Expr.SpellsOption context.inClass value a ∧ Stmt.Fits context (.giveBack keyword value)
  | .classDecl name superclass methods statics getters setters, ts =>
    ∃ word parent left members right,
      ts = word :: name :: (parent ++ left :: ((members.map Prod.snd).flatten ++ [right]))
      ∧ word.kind = .classWord ∧ left.kind = .leftBrace ∧ right.kind = .rightBrace
      ∧ Reference.SpellsSuperclass superclass parent
      ∧ Stmt.SpellsRoutines { context with inClass := true } .methods methods
          (ofGroup .methods members)
      ∧ Stmt.SpellsRoutines { context with inClass := true } .statics statics
          (ofGroup .statics members)
      ∧ Stmt.SpellsRoutines { context with inClass := true } .getters getters
          (ofGroup .getters members)
      ∧ Stmt.SpellsRoutines { context with inClass := true } .setters setters
          (ofGroup .setters members)
      ∧ Stmt.Fits context (.classDecl name superclass methods statics getters setters)

/-- The tokens spell the statements, one after the other. -/
def Stmt.SpellsAll (context : Parser.Context) : List Item → List Token → Prop
  | [], ts => ts = []
  | s :: rest, ts => ∃ a b, ts = a ++ b ∧ s.Spells context a ∧ Stmt.SpellsAll context rest b

/-- The tokens spell the `else` of an `if`, if it has one. -/
def Stmt.SpellsElse (context : Parser.Context) : Option Item → List Token → Prop
  | none, ts => ts = []
  | some s, ts => ∃ word b, ts = word :: b ∧ word.kind = .elseWord ∧ s.Spells context b

/-- The texts spell the routines of a group, one each. -/
def Stmt.SpellsRoutines (context : Parser.Context) (group : Group) :
    List (Routine Item) → List (List Token) → Prop
  | [], texts => texts = []
  | ⟨name, params, body⟩ :: rest, texts =>
    ∃ mark head mid right more, texts = (mark ++ (head ++ (mid ++ [right]))) :: more
      ∧ group.Marks mark ∧ right.kind = .rightBrace ∧ name.SpellsHead params head
      ∧ Stmt.SpellsAll { context with inLoop := false } body mid
      ∧ Stmt.SpellsRoutines context group rest more

end

/-- The tokens spell the program. -/
def Program.Spells (program : Program Unit) (ts : List Token) : Prop :=
  Stmt.SpellsAll Parser.topLevel program ts

/-! ## Well-formed trees -/

/-- The first clause of a `for` loop is well formed. -/
def ForStart.WellFormed (inside : Bool) : Option (ForStart Unit) → Prop
  | none => True
  | some (.var _ value) => ∀ e ∈ value, e.WellFormed inside
  | some (.expr e) => e.WellFormed inside

mutual

/-- The statement fits at every node. -/
def Stmt.WellFormed (context : Parser.Context) : Item → Prop
  | .expr e => Stmt.Fits context (.expr e) ∧ e.WellFormed context.inClass
  | .echo e => Stmt.Fits context (.echo e)
  | .var name value =>
    Stmt.Fits context (.var name value) ∧ ∀ e ∈ value, e.WellFormed context.inClass
  | .block body => Stmt.WellFormedAll context body
  | .exit keyword code =>
    Stmt.Fits context (.exit keyword code) ∧ code.WellFormed context.inClass
  | .branch test yes no =>
    Stmt.Fits context (.branch test yes no) ∧ test.WellFormed context.inClass
      ∧ yes.WellFormed context ∧ Stmt.WellFormedOption context no
  | .loop test body =>
    Stmt.Fits context (.loop test body) ∧ test.WellFormed context.inClass
      ∧ body.WellFormed { context with inLoop := true }
  | .forLoop start test after body =>
    Stmt.Fits context (.forLoop start test after body)
      ∧ ForStart.WellFormed context.inClass start ∧ test.WellFormed context.inClass
      ∧ (∀ e ∈ after, e.WellFormed context.inClass)
      ∧ body.WellFormed { context with inLoop := true }
  | .step direction ref => Stmt.Fits context (.step direction ref)
  | .jump j keyword => Stmt.Fits context (.jump j keyword)
  | .routine ⟨name, params, body⟩ =>
    Stmt.Fits context (.routine ⟨name, params, body⟩)
      ∧ Stmt.WellFormedAll { context with inLoop := false } body
  | .giveBack keyword value =>
    Stmt.Fits context (.giveBack keyword value) ∧ ∀ e ∈ value, e.WellFormed context.inClass
  | .classDecl name superclass methods statics getters setters =>
    Stmt.Fits context (.classDecl name superclass methods statics getters setters)
      ∧ Stmt.WellFormedRoutines { context with inClass := true } methods
      ∧ Stmt.WellFormedRoutines { context with inClass := true } statics
      ∧ Stmt.WellFormedRoutines { context with inClass := true } getters
      ∧ Stmt.WellFormedRoutines { context with inClass := true } setters

/-- The statements are well formed. -/
def Stmt.WellFormedAll (context : Parser.Context) : List Item → Prop
  | [] => True
  | s :: rest => s.WellFormed context ∧ Stmt.WellFormedAll context rest

/-- A statement that may be left out is well formed. -/
def Stmt.WellFormedOption (context : Parser.Context) : Option Item → Prop
  | none => True
  | some s => s.WellFormed context

/-- The bodies of the routines are well formed. -/
def Stmt.WellFormedRoutines (context : Parser.Context) : List (Routine Item) → Prop
  | [] => True
  | ⟨_, _, body⟩ :: rest =>
    Stmt.WellFormedAll { context with inLoop := false } body
      ∧ Stmt.WellFormedRoutines context rest

end

/-- The program fits at every node. -/
def Program.WellFormed (program : Program Unit) : Prop :=
  Stmt.WellFormedAll Parser.topLevel program

end KScript

import KScript.Syntax
import KScript.Text.Literal

/-!
# Expressions in prefix form

Every operation is written as a parenthesised list with its operator in front: `1 + 2 * 3` is
`(+ 1 (* 2 3))`.
-/

namespace KScript.Expr

/-- Words in parentheses, with single spaces between them. -/
def inParens (parts : List String) : String := "(" ++ " ".intercalate parts ++ ")"

mutual

/-- The prefix form of an expression. -/
def prefixForm {β : Type} : Expr β → String
  | .literal (.string s) => Text.quoted s
  | .literal value => value.display
  | .array items => inParens ("array" :: prefixForms items)
  | .grouping inner => inParens ["group", prefixForm inner]
  | .unary op operand => inParens [op.lexeme, prefixForm operand]
  | .binary left op right => inParens [op.lexeme, prefixForm left, prefixForm right]
  | .logical left op right => inParens [op.lexeme, prefixForm left, prefixForm right]
  | .conditional condition yes no =>
    inParens ["?", prefixForm condition, prefixForm yes, prefixForm no]
  | .variable ref => ref.name.lexeme
  | .assign ref value => inParens ["=", ref.name.lexeme, prefixForm value]
  | .step direction ref => inParens [direction.word, ref.name.lexeme]
  | .call callee _ args => inParens ("call" :: prefixForm callee :: prefixForms args)
  | .get object name _ => inParens [".", prefixForm object, name.lexeme]
  | .set object name value _ => inParens [".=", prefixForm object, name.lexeme, prefixForm value]
  | .receiver _ => "this"
  | .inherited _ method => inParens ["super", method.lexeme]

/-- The prefix forms of expressions, in order. -/
def prefixForms {β : Type} : List (Expr β) → List String
  | [] => []
  | e :: rest => prefixForm e :: prefixForms rest

end

end KScript.Expr

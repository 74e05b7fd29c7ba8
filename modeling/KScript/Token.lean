/-!
# Tokens

The words of K#: their kinds, the reserved words, and the literal values that a token or an
expression can carry.
-/

namespace KScript

/-- What kind of word a token is. -/
inductive Kind where
  -- brackets and punctuation
  | leftParen | rightParen | leftBrace | rightBrace | leftSquare | rightSquare
  | comma | dot | semicolon | question | colon
  -- operators of one or two characters
  | minus | minusEqual | plus | plusEqual | slash | slashEqual | star | starEqual
  | caret | caretEqual | bang | bangEqual | equal | equalEqual | greater | greaterEqual
  | lesser | lesserEqual | lesserMinus
  -- words with a value
  | identifier | string | number
  -- reserved words
  | andWord | classWord | elseWord | trueWord | falseWord | subWord | forWord | ifWord
  | zilchWord | orWord | returnWord | superWord | thisWord | varWord | whileWord | exitWord
  | incWord | decWord | breakWord | continueWord | modWord | divWord | infWord
  | staticWord | getWord | setWord
deriving DecidableEq, Inhabited

namespace Kind

/-- The name under which a kind is listed. -/
def name : Kind → String
  | leftParen => "LEFT_PAREN"
  | rightParen => "RIGHT_PAREN"
  | leftBrace => "LEFT_BRACE"
  | rightBrace => "RIGHT_BRACE"
  | leftSquare => "LEFT_SQUARE"
  | rightSquare => "RIGHT_SQUARE"
  | comma => "COMMA"
  | dot => "DOT"
  | semicolon => "SEMICOLON"
  | question => "QUESTION"
  | colon => "COLON"
  | minus => "MINUS"
  | minusEqual => "MINUS_EQUAL"
  | plus => "PLUS"
  | plusEqual => "PLUS_EQUAL"
  | slash => "SLASH"
  | slashEqual => "SLASH_EQUAL"
  | star => "STAR"
  | starEqual => "STAR_EQUAL"
  | caret => "CARET"
  | caretEqual => "CARET_EQUAL"
  | bang => "BANG"
  | bangEqual => "BANG_EQUAL"
  | equal => "EQUAL"
  | equalEqual => "EQUAL_EQUAL"
  | greater => "GREATER"
  | greaterEqual => "GREATER_EQUAL"
  | lesser => "LESSER"
  | lesserEqual => "LESSER_EQUAL"
  | lesserMinus => "LESSER_MINUS"
  | identifier => "IDENTIFIER"
  | string => "STRING"
  | number => "NUMBER"
  | andWord => "AND"
  | classWord => "CLASS"
  | elseWord => "ELSE"
  | trueWord => "TRUE"
  | falseWord => "FALSE"
  | subWord => "SUB"
  | forWord => "FOR"
  | ifWord => "IF"
  | zilchWord => "ZILCH"
  | orWord => "OR"
  | returnWord => "RETURN"
  | superWord => "SUPER"
  | thisWord => "THIS"
  | varWord => "VAR"
  | whileWord => "WHILE"
  | exitWord => "EXIT"
  | incWord => "INC"
  | decWord => "DEC"
  | breakWord => "BREAK"
  | continueWord => "CONTINUE"
  | modWord => "MOD"
  | divWord => "DIV"
  | infWord => "INF"
  | staticWord => "STATIC"
  | getWord => "GET"
  | setWord => "SET"

/-- The reserved words and their kinds. -/
def keywords : List (String × Kind) :=
  [("and", andWord), ("class", classWord), ("else", elseWord), ("false", falseWord),
   ("true", trueWord), ("for", forWord), ("sub", subWord), ("if", ifWord), ("zilch", zilchWord),
   ("or", orWord), ("return", returnWord), ("super", superWord), ("this", thisWord),
   ("var", varWord), ("while", whileWord), ("exit", exitWord), ("inc", incWord), ("dec", decWord),
   ("break", breakWord), ("continue", continueWord), ("mod", modWord), ("div", divWord),
   ("inf", infWord), ("static", staticWord), ("get", getWord), ("set", setWord)]

/-- The kind of a word made of letters, digits and underscores. -/
def ofWord (word : String) : Kind := (keywords.lookup word).getD identifier

end Kind

/-- A value that can be written down in one word. -/
inductive Literal where
  | zilch
  | bool (b : Bool)
  | number (x : Float)
  | string (s : String)
deriving DecidableEq, Inhabited

/-- A word of the source: its kind, its text, its value if it has one, and the line it ends on. -/
structure Token where
  kind : Kind
  lexeme : String
  literal : Option Literal
  line : Nat
deriving DecidableEq, Inhabited

end KScript

/-!
# Patterns

Regular patterns over characters, and whether a whole text matches one.  Matching goes character by
character: `after c p` matches what may follow `c` in a text that `p` matches.
-/

namespace KScript.Text

/-- A regular pattern. -/
inductive Pattern where
  /-- No text. -/
  | never
  /-- The empty text. -/
  | empty
  /-- One character of a class. -/
  | char (isMember : Char → Bool)
  | seq (first second : Pattern)
  | either (one other : Pattern)
  /-- Any number of times. -/
  | many (p : Pattern)

namespace Pattern

/-- Whether the empty text matches. -/
def matchesEmpty : Pattern → Bool
  | never => false
  | empty => true
  | char _ => false
  | seq p q => matchesEmpty p && matchesEmpty q
  | either p q => matchesEmpty p || matchesEmpty q
  | many _ => true

/-- One pattern after the other, shortened where the first is trivial. -/
def followedBy : Pattern → Pattern → Pattern
  | never, _ => never
  | empty, q => q
  | p, q => seq p q

/-- Either of two patterns, shortened where one is trivial. -/
def orElse : Pattern → Pattern → Pattern
  | never, q => q
  | p, never => p
  | p, q => either p q

/-- What may follow a character. -/
def after (c : Char) : Pattern → Pattern
  | never => never
  | empty => never
  | char isMember => if isMember c then empty else never
  | seq p q =>
    if matchesEmpty p then orElse (followedBy (after c p) q) (after c q)
    else followedBy (after c p) q
  | either p q => orElse (after c p) (after c q)
  | many p => followedBy (after c p) (many p)

/-- Whether a whole text matches. -/
def accepts (p : Pattern) : List Char → Bool
  | [] => matchesEmpty p
  | c :: rest => accepts (after c p) rest

/-- Patterns one after the other. -/
def all : List Pattern → Pattern
  | [] => empty
  | p :: rest => seq p (all rest)

/-- Any one of the patterns. -/
def any : List Pattern → Pattern
  | [] => never
  | p :: rest => either p (any rest)

/-- One of the characters of a text. -/
def oneOf (chars : String) : Pattern := char (chars.toList.contains ·)

/-- That text. -/
def word (text : String) : Pattern := all (text.toList.map fun c => char (· == c))

/-- Any one of the texts. -/
def words (texts : List String) : Pattern := any (texts.map word)

/-- At most once. -/
def optional (p : Pattern) : Pattern := either p empty

/-- At least once. -/
def some (p : Pattern) : Pattern := seq p (many p)

/-- A decimal digit. -/
def digit : Pattern := char Char.isDigit

end Pattern

end KScript.Text

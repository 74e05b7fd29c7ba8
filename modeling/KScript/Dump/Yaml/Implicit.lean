import KScript.Text.Pattern

/-!
# Words with a meaning of their own

In YAML a plain word can stand for a truth value, nothing, a number or a time.  A text that looks like
one of these has to be quoted.
-/

namespace KScript.Yaml

open Text.Pattern

/-- An optional sign. -/
def sign : Text.Pattern := optional (oneOf "-+")

def digitsOrUnderscores : Text.Pattern := many (oneOf "0123456789_")

/-- `:00` to `:59`, with one digit or two. -/
def sixtieths : Text.Pattern := Text.Pattern.some (all [word ":", optional (oneOf "012345"), digit])

/-- An exponent, whose sign is written out. -/
def exponent : Text.Pattern := all [oneOf "eE", oneOf "-+", Text.Pattern.some digit]

def truthValue : Text.Pattern :=
  words ["yes", "Yes", "YES", "no", "No", "NO", "true", "True", "TRUE", "false", "False", "FALSE",
    "on", "On", "ON", "off", "Off", "OFF"]

def nothing : Text.Pattern := words ["", "~", "null", "Null", "NULL"]

/-- The keys that merge another mapping and that stand for a default value. -/
def specialKey : Text.Pattern := words ["<<", "="]

def integer : Text.Pattern :=
  seq sign (any
    [seq (word "0b") (Text.Pattern.some (oneOf "01_")),
     seq (word "0") (Text.Pattern.some (oneOf "01234567_")),
     word "0",
     seq (oneOf "123456789") digitsOrUnderscores,
     seq (word "0x") (Text.Pattern.some (oneOf "0123456789abcdefABCDEF_")),
     all [oneOf "123456789", digitsOrUnderscores, sixtieths]])

def float : Text.Pattern :=
  any
    [all [sign, digit, digitsOrUnderscores, word ".", digitsOrUnderscores, optional exponent],
     all [word ".", digit, digitsOrUnderscores, optional exponent],
     all [sign, digit, digitsOrUnderscores, sixtieths, word ".", digitsOrUnderscores],
     seq sign (words [".inf", ".Inf", ".INF"]),
     words [".nan", ".NaN", ".NAN"]]

/-- One digit or two. -/
def oneOrTwo : Text.Pattern := seq digit (optional digit)

def two : Text.Pattern := seq digit digit

def year : Text.Pattern := seq two two

def blanks : Text.Pattern := many (oneOf " \t")

def timeZone : Text.Pattern :=
  either (word "Z") (all [oneOf "-+", oneOrTwo, optional (seq (word ":") two)])

def timestamp : Text.Pattern :=
  either (all [year, word "-", two, word "-", two])
    (all [year, word "-", oneOrTwo, word "-", oneOrTwo,
      either (oneOf "Tt") (Text.Pattern.some (oneOf " \t")),
      oneOrTwo, word ":", two, word ":", two, optional (seq (word ".") (many digit)),
      optional (seq blanks timeZone)])

/-- The texts that mean something else than themselves. -/
def implicit : Text.Pattern :=
  any [truthValue, nothing, specialKey, integer, float, timestamp]

end KScript.Yaml

import KScript.Token

/-!
# Static diagnostics

What can be wrong with a script before it runs, and how that is told.  Each cause is a constructor of
`Complaint`; its wording is `Complaint.message` and nothing else in the library spells it.
-/

namespace KScript

/-- The forms in which a routine is declared. -/
inductive RoutineForm where
  | subroutine
  | method
  | getter
  | setter
deriving DecidableEq

/-- How a form of routine is called in complaints. -/
def RoutineForm.title : RoutineForm → String
  | subroutine => "subroutine"
  | method => "method"
  | getter => "get method"
  | setter => "set method"

/-- The statements that jump inside a loop. -/
inductive Jump where
  | breakLoop
  | continueLoop
deriving DecidableEq

/-- The two directions of a counting step. -/
inductive Direction where
  | up
  | down
deriving DecidableEq

/-- The reserved word of a counting step. -/
def Direction.word : Direction → String
  | up => "inc"
  | down => "dec"

/-- What the grammar asked for and did not find. -/
inductive Expected where
  | expression
  | className
  | superclassName
  | classBody
  | classEnd
  | variableName
  | declarationEnd
  | routineName (form : RoutineForm)
  | routineParams (form : RoutineForm)
  | parameterName
  | parametersEnd
  | routineBody (form : RoutineForm)
  | ifCondition
  | whileCondition
  | conditionEnd
  | forClauses
  | loopConditionEnd
  | forClausesEnd
  | valueEnd
  | steppedName (direction : Direction)
  | steppedNameEnd
  | returnEnd
  | jumpEnd (jump : Jump)
  | blockEnd
  | propertyName
  | argumentsEnd
  | superDot
  | superMethod
  | groupEnd
  | arrayEnd
deriving DecidableEq

/-- What was asked for, in words. -/
def Expected.text : Expected → String
  | expression => "expression"
  | className => "class name"
  | superclassName => "superclass name"
  | classBody => "'\x7b' before class body"
  | classEnd => "'\x7d' after class body"
  | variableName => "variable name"
  | declarationEnd => "';' after variable declaration"
  | routineName form => form.title ++ " name"
  | routineParams form => "'(' after " ++ form.title ++ " name"
  | parameterName => "parameter name"
  | parametersEnd => "')' after parameters"
  | routineBody form => "'\x7b' before " ++ form.title ++ " body"
  | ifCondition => "'(' after 'if'"
  | whileCondition => "'(' after 'while'"
  | conditionEnd => "')' after condition"
  | forClauses => "'(' after 'for'"
  | loopConditionEnd => "';' after loop condition"
  | forClausesEnd => "')' after for clauses"
  | valueEnd => "';' after value"
  | steppedName direction => "variable name after '" ++ direction.word ++ "'"
  | steppedNameEnd => "';' after variable name"
  | returnEnd => "';' after return value"
  | jumpEnd .breakLoop => "';' after break statement"
  | jumpEnd .continueLoop => "';' after continue statement"
  | blockEnd => "'\x7d' after block"
  | propertyName => "property name after '.'"
  | argumentsEnd => "')' after arguments"
  | superDot => "'.' after 'super'"
  | superMethod => "superclass method name"
  | groupEnd => "')' after expression"
  | arrayEnd => "']' after array items"

/-- The lists whose length is limited. -/
inductive Listing where
  | parameters
  | arguments
  | items
deriving DecidableEq

/-- The most parameters, arguments or array items that one list may have. -/
def Listing.limit : Nat := 255

/-- What a listing is made of, in words. -/
def Listing.text : Listing → String
  | parameters => "parameters"
  | arguments => "arguments"
  | items => "items"

/-- Why a script is rejected before it runs. -/
inductive Complaint where
  -- the words
  | unexpectedCharacter
  | unterminatedString
  | missingBaseDigit
  -- the grammar
  | missing (what : Expected)
  | tooMany (what : Listing)
  | getterParameters
  | setterParameters
  | jumpOutsideLoop (jump : Jump)
  | assignmentTarget
  | stepTarget
  -- the scopes
  | redeclared
  | readInInitializer
  | returnAtTopLevel
  | returnFromConstructor
  | selfInheritance
  | thisOutsideClass
  | thisInStatic
  | superOutsideClass
  | superWithoutSuperclass
  | superInStatic
deriving DecidableEq

/-- The wording of a complaint. -/
def Complaint.message : Complaint → String
  | unexpectedCharacter => "Unexpected character"
  | unterminatedString => "Unterminated string"
  | missingBaseDigit => "invalid character following base literal."
  | missing what => "Expect " ++ what.text ++ "."
  | tooMany what => "More than 255 " ++ what.text ++ " is not allowed."
  | getterParameters => "Get methods cannot take any arguments."
  | setterParameters => "Set methods must take exactly one argument."
  | jumpOutsideLoop .breakLoop => "Break statement must occur inside loop."
  | jumpOutsideLoop .continueLoop => "Continue statement must occur inside loop."
  | assignmentTarget => "Invalid assignment target."
  | stepTarget => "Expect Variable after increment/decrement instruction."
  | redeclared => "Already a variable with this name in this scope."
  | readInInitializer => "Can't read local variable in its own initializer."
  | returnAtTopLevel => "Can't return from top-level code."
  | returnFromConstructor => "Can't return a value from a class constructor."
  | selfInheritance => "A class cannot inherit from itself."
  | thisOutsideClass => "Can't use 'this' outside of a class."
  | thisInStatic => "Can't use 'this' in a static method."
  | superOutsideClass => "Can't use 'super' outside of a class."
  | superWithoutSuperclass => "Can't use 'super' in a class with no superclass."
  | superInStatic => "Can't use 'super' in a static method."

/-- What a diagnostic points at, besides its line. -/
inductive Place where
  /-- The line only: there is no token. -/
  | line
  /-- The end of the script. -/
  | atEnd
  /-- A token with this text. -/
  | atToken (lexeme : String)
deriving DecidableEq

/-- How a place is written inside a diagnostic. -/
def Place.text : Place → String
  | line => ""
  | atEnd => " at end"
  | atToken lexeme => " at '" ++ lexeme ++ "'"

/-- A complaint and where it arose. -/
structure Diagnostic where
  line : Nat
  place : Place
  complaint : Complaint
deriving DecidableEq

/-- The complaint about a token. -/
def Diagnostic.atToken (token : Token) (complaint : Complaint) : Diagnostic :=
  ⟨token.line, .atToken token.lexeme, complaint⟩

/-- A diagnostic as one line of text. -/
def Diagnostic.text (d : Diagnostic) : String :=
  "[line " ++ toString d.line ++ "] Error" ++ d.place.text ++ ": " ++ d.complaint.message

end KScript

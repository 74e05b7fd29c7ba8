import KScript.Diagnostic
import KScript.Text.Quoted

/-!
# What can go wrong while a script runs

A `Cause` is a mistake of the script, told to its author with the line it happened on; its wording is
`Cause.message`.  A `Crash` is a hole in the language itself: nothing catches it and no line is known.
-/

namespace KScript

/-- Whether a counting step is used for its value or as a statement of its own. -/
inductive StepUse where
  | expression
  | statement
deriving DecidableEq

/-- Why a running script fails. -/
inductive Cause where
  -- operators
  | operandsOfPlus
  | operandsNotNumbers
  | operandNotNumber
  | unknownOperator (lexeme : String)
  -- variables
  | undefinedVariable (name : String)
  | steppedNotNumber (direction : Direction) (use : StepUse)
  -- calls
  | notCallable
  | wrongCount (expected got : Nat)
  | stackOverflow
  -- properties
  | propertyOfOther
  | fieldOfOther
  | setterOnly (name : String)
  | getterOnly (name : String)
  | undefinedProperty (name : String)
  | undefinedStatic (name : String)
  -- statements
  | exitNotNumber
  | exitNotInteger
  | superclassNotClass
  -- native routines
  | argumentNotNumber
  | inputCount
  | promptNotString
  | roundCount
  | digitsNotInteger
deriving DecidableEq

/-- A step in words. -/
def stepTitle (direction : Direction) (use : StepUse) : String :=
  (match direction with
    | .up => "increment"
    | .down => "decrement")
  ++ match use with
    | .expression => " expression"
    | .statement => " statement"

/-- The wording of a cause. -/
def Cause.message : Cause → String
  | operandsOfPlus => "Operands must be two numbers or two strings."
  | operandsNotNumbers => "Operands must be numbers."
  | operandNotNumber => "Operand must be a number."
  | unknownOperator lexeme => "Unknown operator '" ++ lexeme ++ "'."
  | undefinedVariable name => "Undefined variable '" ++ name ++ "'."
  | steppedNotNumber direction use =>
    "Variable passed to " ++ stepTitle direction use ++ " had non-number value at runtime."
  | notCallable => "Can only call subroutine and classes."
  | wrongCount expected got =>
    "Expected " ++ toString expected ++ " arguments but got " ++ toString got ++ "."
  | stackOverflow => "Stack overflow."
  | propertyOfOther => "Only instances have properties."
  | fieldOfOther => "Only instances have fields."
  | setterOnly name => "Instance has a set method but no matching get method for '" ++ name ++ "'."
  | getterOnly name => "Instance has a get method but no matching set method for '" ++ name ++ "'."
  | undefinedProperty name => "Undefined property '" ++ name ++ "'."
  | undefinedStatic name => "Undefined static method '" ++ name ++ "'."
  | exitNotNumber => "Exit code must be a number."
  | exitNotInteger => "Exit code must be an integer."
  | superclassNotClass => "Superclass must be a class."
  | argumentNotNumber => "Expected number input."
  | inputCount => "Input takes 0 or 1 arguments."
  | promptNotString => "Prompt must be a string."
  | roundCount => "Round takes 1 or 2 arguments."
  | digitsNotInteger => "digits must be an integer."

/-- How a run can break down. -/
inductive Crash where
  /-- A name was looked up in a frame that does not bind it. -/
  | unbound (name : String)
  /-- A frame was looked up beyond the outermost one. -/
  | offChain
  /-- A rounded number has no double. -/
  | roundedTooLarge
deriving DecidableEq

/-- The wording of a crash, if it has one. -/
def Crash.message? : Crash → Option String
  | unbound name => some (Text.quoted name)
  | offChain => none
  | roundedTooLarge => some "rounded value too large to represent"

end KScript

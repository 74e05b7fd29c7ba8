import KScript.Number.Arithmetic
import KScript.Value

/-!
# Operators

The operators of one and two operands as functions on values.  `+` joins two numbers or two strings,
equality compares anything, and all others want numbers.
-/

namespace KScript.Operator

/-- Applies an operator to numbers; `none` for what is no operator on numbers. -/
def onNumbers? (op : Kind) (a b : Float) : Option Value :=
  match op with
  | .minus => some (.number (a - b))
  | .star => some (.number (a * b))
  | .slash => some (.number (Arithmetic.divide a b))
  | .modWord => some (.number (Arithmetic.remainder a b))
  | .divWord => some (.number (Arithmetic.floorDivide a b))
  | .caret => some (.number (Arithmetic.power a b))
  | .greater => some (.bool (b < a))
  | .greaterEqual => some (.bool (b ≤ a))
  | .lesser => some (.bool (a < b))
  | .lesserEqual => some (.bool (a ≤ b))
  | _ => none

/-- `+`. -/
def plus : Value → Value → Except Cause Value
  | .number a, .number b => .ok (.number (a + b))
  | .text a, .text b => .ok (.text (a ++ b))
  | _, _ => .error .operandsOfPlus

/-- Applies an operator that wants two numbers. -/
def numeric (op : Token) : Value → Value → Except Cause Value
  | .number a, .number b =>
    match onNumbers? op.kind a b with
    | some v => .ok v
    | none => .error (.unknownOperator op.lexeme)
  | _, _ => .error .operandsNotNumbers

/-- Applies an operator of two operands. -/
def binary (op : Token) (a b : Value) : Except Cause Value :=
  match op.kind with
  | .plus => plus a b
  | .equalEqual => .ok (.bool (a.same b))
  | .bangEqual => .ok (.bool (!a.same b))
  | _ => numeric op a b

/-- Applies an operator of one operand: `-` to a number, `!` to anything. -/
def unary (op : Token) (a : Value) : Except Cause Value :=
  match op.kind, a with
  | .minus, .number x => .ok (.number (-x))
  | .minus, _ => .error .operandNotNumber
  | _, a => .ok (.bool (!a.isTruthy))

end KScript.Operator

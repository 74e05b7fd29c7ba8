import KScript.Number.Double
import KScript.Syntax

/-!
# Programs as plain data

A program is dumped as a tree of records, lists and scalars.  A record names its node first and then
gives the parts of the node in a fixed order; a token stands for its text, and an integral number is
an integer.
-/

namespace KScript

/-- Plain data. -/
inductive Data where
  | null
  | bool (b : Bool)
  | integer (n : Int)
  | float (x : Float)
  | text (s : String)
  | list (items : List Data)
  | record (fields : List (String × Data))

namespace Data

/-- A record for a node. -/
def node (name : String) (parts : List (String × Data)) : Data :=
  .record (("node", .text name) :: parts)

def ofNumber (x : Float) : Data :=
  match Double.toInt? x with
  | some n => .integer n
  | none => .float x

def ofToken (t : Token) : Data := .text t.lexeme

def ofTokens (ts : List Token) : Data := .list (ts.map ofToken)

def ofLiteral : Literal → Data
  | .zilch => .null
  | .bool b => .bool b
  | .number x => ofNumber x
  | .string s => .text s

end Data

open Data

mutual

/-- An expression as data. -/
def Expr.toData {β : Type} : Expr β → Data
  | .literal value => node "Literal" [("value", ofLiteral value)]
  | .array items => node "Literal" [("value", .list (Expr.listToData items))]
  | .grouping inner => node "Grouping" [("expression", inner.toData)]
  | .unary op operand => node "Unary" [("operator", ofToken op), ("right", operand.toData)]
  | .binary left op right =>
    node "Binary" [("left", left.toData), ("operator", ofToken op), ("right", right.toData)]
  | .logical left op right =>
    node "Logical" [("left", left.toData), ("operator", ofToken op), ("right", right.toData)]
  | .conditional condition yes no =>
    node "Conditional"
      [("condition", condition.toData), ("then", yes.toData), ("otherwise", no.toData)]
  | .variable ref => node "Variable" [("name", ofToken ref.name)]
  | .assign ref value => node "Assign" [("name", ofToken ref.name), ("value", value.toData)]
  | .step .up ref => node "Inc" [("variable_name", ofToken ref.name)]
  | .step .down ref => node "Dec" [("variable_name", ofToken ref.name)]
  | .call callee paren args =>
    node "Call"
      [("callee", callee.toData), ("paren", ofToken paren), ("args", .list (Expr.listToData args))]
  | .get object name inside =>
    node "Get" [("object", object.toData), ("name", ofToken name), ("in_method", .bool inside)]
  | .set object name value inside =>
    node "Set"
      [("object", object.toData), ("name", ofToken name), ("value", value.toData),
       ("in_method", .bool inside)]
  | .receiver ref => node "This" [("keyword", ofToken ref.name)]
  | .inherited ref method =>
    node "Super" [("keyword", ofToken ref.name), ("method", ofToken method)]

/-- Expressions as data, in order. -/
def Expr.listToData {β : Type} : List (Expr β) → List Data
  | [] => []
  | e :: rest => e.toData :: Expr.listToData rest

end

namespace Data

/-- A part that may be left out. -/
def ofOption {α : Type} (toData : α → Data) : Option α → Data
  | none => .null
  | some a => toData a

/-- The declaration of a variable. -/
def varNode {β : Type} (name : Token) (value : Option (Expr β)) : Data :=
  node "Var" [("name", ofToken name), ("initializer", ofOption Expr.toData value)]

/-- An expression used as a statement. -/
def exprNode {β : Type} (e : Expr β) : Data := node "Expression" [("expression", e.toData)]

def ofForStart {β : Type} : ForStart β → Data
  | .var name value => varNode name value
  | .expr e => exprNode e

def ofReference {β : Type} (ref : Reference β) : Data := node "Variable" [("name", ofToken ref.name)]

/-- A routine whose body has been turned into data. -/
def routineNode (name : Token) (params : List Token) (body : List Data) : Data :=
  node "Subroutine" [("name", ofToken name), ("params", ofTokens params), ("body", .list body)]

end Data

mutual

/-- A statement as data. -/
def Stmt.toData {β : Type} : Stmt β → Data
  | .expr e => exprNode e
  | .echo e => node "Print" [("expression", e.toData)]
  | .var name value => varNode name value
  | .block body => node "Block" [("statements", .list (Stmt.listToData body))]
  | .exit keyword code => node "Exit" [("token", ofToken keyword), ("exit_code", code.toData)]
  | .branch condition yes no =>
    node "If"
      [("condition", condition.toData), ("then_branch", yes.toData),
       ("else_branch", Stmt.optionToData no)]
  | .loop condition body => node "While" [("condition", condition.toData), ("body", body.toData)]
  | .forLoop start condition after body =>
    node "For"
      [("initializer", ofOption ofForStart start), ("condition", condition.toData),
       ("increment", ofOption exprNode after), ("body", body.toData)]
  | .step .up ref => node "IncStmt" [("variable_name", ofToken ref.name)]
  | .step .down ref => node "DecStmt" [("variable_name", ofToken ref.name)]
  | .jump .breakLoop keyword => node "Break" [("keyword", ofToken keyword)]
  | .jump .continueLoop keyword => node "Continue" [("keyword", ofToken keyword)]
  | .routine ⟨name, params, body⟩ => routineNode name params (Stmt.listToData body)
  | .giveBack keyword value =>
    node "Return" [("keyword", ofToken keyword), ("value", ofOption Expr.toData value)]
  | .classDecl name superclass methods statics getters setters =>
    node "Class"
      [("name", ofToken name), ("superclass", ofOption ofReference superclass),
       ("methods", .list (Stmt.routinesToData methods)),
       ("static_methods", .list (Stmt.routinesToData statics)),
       ("get_methods", .list (Stmt.routinesToData getters)),
       ("set_methods", .list (Stmt.routinesToData setters))]

/-- Statements as data, in order. -/
def Stmt.listToData {β : Type} : List (Stmt β) → List Data
  | [] => []
  | s :: rest => s.toData :: Stmt.listToData rest

/-- A statement that may be left out. -/
def Stmt.optionToData {β : Type} : Option (Stmt β) → Data
  | none => .null
  | some s => s.toData

/-- Routines as data, in order. -/
def Stmt.routinesToData {β : Type} : List (Routine (Stmt β)) → List Data
  | [] => []
  | ⟨name, params, body⟩ :: rest =>
    routineNode name params (Stmt.listToData body) :: Stmt.routinesToData rest

end

/-- A program as data. -/
def Data.ofProgram {β : Type} (program : Program β) : Data := .list (Stmt.listToData program)

end KScript

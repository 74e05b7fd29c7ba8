import KScript.Dump.Data
import KScript.Proofs.Grammar.Lexed

/-!
# Trees from data

A dump names each node and gives its parts in order, so the tree can be built again from its leaves up.
Tokens are read back from their texts, and all of them are put on line zero.  The tree that comes out is the
one that was dumped (`Expr.recovered?_toData`, `Stmt.recovered?_toData`).
-/

namespace KScript

/-! ## The decoder -/

/-- What a part of a dump stands for. -/
inductive Node where
  | null
  | bool (b : Bool)
  | number (x : Float)
  | text (s : String)
  | list (items : List Node)
  | expr (e : Expr Unit)
  | stmt (s : Stmt Unit)

namespace Node

def token? : Node → Option Token
  | .text s => Token.ofLexeme? s
  | _ => none

def reference? (n : Node) : Option (Reference Unit) := n.token?.map fun name => ⟨name, ()⟩

def flag? : Node → Option Bool
  | .bool b => some b
  | _ => none

def expr? : Node → Option (Expr Unit)
  | .expr e => some e
  | _ => none

def stmt? : Node → Option (Stmt Unit)
  | .stmt s => some s
  | _ => none

def routine? : Node → Option (Routine (Stmt Unit))
  | .stmt (.routine r) => some r
  | _ => none

/-- A superclass is dumped like a variable. -/
def superclass? : Node → Option (Reference Unit)
  | .expr (.variable ref) => some ref
  | _ => none

/-- The first clause of a `for` loop is dumped like a statement … -/
def forStart? : Node → Option (ForStart Unit)
  | .stmt (.var name value) => some (.var name value)
  | .stmt (.expr e) => some (.expr e)
  | _ => none

/-- … and so is the last one. -/
def after? : Node → Option (Expr Unit)
  | .stmt (.expr e) => some e
  | _ => none

/-- A part that may be left out. -/
def option? {α : Type} (read : Node → Option α) : Node → Option (Option α)
  | .null => some none
  | n => (read n).map some

/-- A list of parts. -/
def items? {α : Type} (read : Node → Option α) : Node → Option (List α)
  | .list items => items.mapM read
  | _ => none

/-- The value of a literal; an array is one too. -/
def literal? : Node → Option (Expr Unit)
  | .null => some (.literal .zilch)
  | .bool b => some (.literal (.bool b))
  | .number x => some (.literal (.number x))
  | .text s => some (.literal (.string s))
  | .list items => ((Node.list items).items? expr?).map .array
  | _ => none

section Parts

variable {α : Type}

/-- Reads a record of one part … -/
def one (read : Node → Option α) : List Node → Option α
  | [a] => read a
  | _ => none

/-- … of two … -/
def two (read : Node → Node → Option α) : List Node → Option α
  | [a, b] => read a b
  | _ => none

/-- … of three … -/
def three (read : Node → Node → Node → Option α) : List Node → Option α
  | [a, b, c] => read a b c
  | _ => none

/-- … of four … -/
def four (read : Node → Node → Node → Node → Option α) : List Node → Option α
  | [a, b, c, d] => read a b c d
  | _ => none

/-- … and of six. -/
def six (read : Node → Node → Node → Node → Node → Node → Option α) : List Node → Option α
  | [a, b, c, d, e, f] => read a b c d e f
  | _ => none

end Parts

/-- The expression of that name with those parts. -/
def exprOf? : String → List Node → Option (Expr Unit)
  | "Literal" => one literal?
  | "Grouping" => one fun inner => do return .grouping (← inner.expr?)
  | "Unary" => two fun op operand => do return .unary (← op.token?) (← operand.expr?)
  | "Binary" => three fun left op right => do
    return .binary (← left.expr?) (← op.token?) (← right.expr?)
  | "Logical" => three fun left op right => do
    return .logical (← left.expr?) (← op.token?) (← right.expr?)
  | "Conditional" => three fun test yes no => do
    return .conditional (← test.expr?) (← yes.expr?) (← no.expr?)
  | "Variable" => one fun name => do return .variable (← name.reference?)
  | "Assign" => two fun name value => do return .assign (← name.reference?) (← value.expr?)
  | "Inc" => one fun name => do return .step .up (← name.reference?)
  | "Dec" => one fun name => do return .step .down (← name.reference?)
  | "Call" => three fun callee paren args => do
    return .call (← callee.expr?) (← paren.token?) (← args.items? expr?)
  | "Get" => three fun object name inside => do
    return .get (← object.expr?) (← name.token?) (← inside.flag?)
  | "Set" => four fun object name value inside => do
    return .set (← object.expr?) (← name.token?) (← value.expr?) (← inside.flag?)
  | "This" => one fun keyword => do return .receiver (← keyword.reference?)
  | "Super" => two fun keyword method => do
    return .inherited (← keyword.reference?) (← method.token?)
  | _ => fun _ => none

/-- The statement of that name with those parts. -/
def stmtOf? : String → List Node → Option (Stmt Unit)
  | "Expression" => one fun e => do return .expr (← e.expr?)
  | "Print" => one fun e => do return .echo (← e.expr?)
  | "Var" => two fun name value => do return .var (← name.token?) (← value.option? expr?)
  | "Block" => one fun body => do return .block (← body.items? stmt?)
  | "Exit" => two fun keyword code => do return .exit (← keyword.token?) (← code.expr?)
  | "If" => three fun test yes no => do
    return .branch (← test.expr?) (← yes.stmt?) (← no.option? stmt?)
  | "While" => two fun test body => do return .loop (← test.expr?) (← body.stmt?)
  | "For" => four fun start test after body => do
    return .forLoop (← start.option? forStart?) (← test.expr?) (← after.option? after?) (← body.stmt?)
  | "IncStmt" => one fun name => do return .step .up (← name.reference?)
  | "DecStmt" => one fun name => do return .step .down (← name.reference?)
  | "Break" => one fun keyword => do return .jump .breakLoop (← keyword.token?)
  | "Continue" => one fun keyword => do return .jump .continueLoop (← keyword.token?)
  | "Subroutine" => three fun name params body => do
    return .routine ⟨← name.token?, ← params.items? token?, ← body.items? stmt?⟩
  | "Return" => two fun keyword value => do
    return .giveBack (← keyword.token?) (← value.option? expr?)
  | "Class" => six fun name superclass methods statics getters setters => do
    return .classDecl (← name.token?) (← superclass.option? superclass?) (← methods.items? routine?)
      (← statics.items? routine?) (← getters.items? routine?) (← setters.items? routine?)
  | _ => fun _ => none

/-- What a record stands for, whose first part is its name. -/
def ofParts? : List Node → Option Node
  | .text name :: parts => (exprOf? name parts).map .expr <|> (stmtOf? name parts).map .stmt
  | _ => none

end Node

mutual

/-- What data stands for. -/
def Data.recovered? : Data → Option Node
  | .null => some .null
  | .bool b => some (.bool b)
  | .integer n => some (.number (Double.ofInt n))
  | .float x => some (.number x)
  | .text s => some (.text s)
  | .list items => (Data.recoveredAll? items).map .list
  | .record fields => (Data.recoveredFields? fields).bind Node.ofParts?

/-- What the items of a list stand for. -/
def Data.recoveredAll? : List Data → Option (List Node)
  | [] => some []
  | d :: rest => d.recovered?.bind fun n => (Data.recoveredAll? rest).map (n :: ·)

/-- What the fields of a record stand for. -/
def Data.recoveredFields? : List (String × Data) → Option (List Node)
  | [] => some []
  | (_, d) :: rest => d.recovered?.bind fun n => (Data.recoveredFields? rest).map (n :: ·)

end

/-! ## Parts -/

section Parts

variable {α : Type} {name field : String} {nodes : List Node} {parts : List (String × Data)} {d : Data}
  {n : Node}

lemma Data.parts_cons (h : d.recovered? = some n) (hparts : Data.recoveredFields? parts = some nodes) :
    Data.recoveredFields? ((field, d) :: parts) = some (n :: nodes) := by
  rw [Data.recoveredFields?, h, hparts, Option.bind_some, Option.map_some]

lemma Data.recovered?_node (h : Data.recoveredFields? parts = some nodes) :
    (Data.node name parts).recovered? = Node.ofParts? (.text name :: nodes) := by
  rw [Data.node, Data.recovered?, Data.parts_cons rfl h, Option.bind_some]

lemma Data.recovered?_expr {e : Expr Unit} (h : Data.recoveredFields? parts = some nodes)
    (he : Node.exprOf? name nodes = some e) : (Data.node name parts).recovered? = some (.expr e) := by
  simp [Data.recovered?_node h, Node.ofParts?, he]

lemma Data.recovered?_stmt {s : Stmt Unit} (h : Data.recoveredFields? parts = some nodes)
    (hexpr : Node.exprOf? name nodes = none) (hs : Node.stmtOf? name nodes = some s) :
    (Data.node name parts).recovered? = some (.stmt s) := by
  simp [Data.recovered?_node h, Node.ofParts?, hexpr, hs]

lemma Data.recovered?_list {items : List Data} (h : Data.recoveredAll? items = some nodes) :
    (Data.list items).recovered? = some (.list nodes) := by
  rw [Data.recovered?, h, Option.map_some]

/-- Parts of one sort are read item by item. -/
lemma Node.items?_map {β : Type} {read : Node → Option β} {put : α → Node} {get : α → β} {items : List α}
    (h : ∀ a ∈ items, read (put a) = some (get a)) :
    (Node.list (items.map put)).items? read = some (items.map get) := by
  induction items with
  | nil => rfl
  | cons a items ih =>
      rw [List.forall_mem_cons] at h
      have hrest : (items.map put).mapM read = some (items.map get) := ih h.2
      change ((a :: items).map put).mapM read = _
      rw [List.map_cons, List.mapM_cons, h.1, hrest]
      rfl

/-- Parts that were put into nodes are taken out of them again. -/
lemma Node.items?_put (read : Node → Option α) (put : α → Node) (h : ∀ a, read (put a) = some a)
    (items : List α) : (Node.list (items.map put)).items? read = some items := by
  have hitems : (Node.list (items.map put)).items? read = some (items.map id) :=
    Node.items?_map fun a _ => h a
  rwa [List.map_id] at hitems

lemma Node.items?_expr (items : List (Expr Unit)) :
    (Node.list (items.map .expr)).items? Node.expr? = some items :=
  Node.items?_put Node.expr? .expr (fun _ => rfl) items

lemma Node.items?_stmt (items : List (Stmt Unit)) :
    (Node.list (items.map .stmt)).items? Node.stmt? = some items :=
  Node.items?_put Node.stmt? .stmt (fun _ => rfl) items

lemma Node.items?_routine (items : List (Routine (Stmt Unit))) :
    (Node.list (items.map fun r => .stmt (.routine r))).items? Node.routine? = some items :=
  Node.items?_put Node.routine? (fun r => .stmt (.routine r)) (fun _ => rfl) items

lemma Node.option?_of_read {read : Node → Option α} {a : α} (hnull : n ≠ .null) (h : read n = some a) :
    n.option? read = some (some a) := by
  cases n <;> simp_all [Node.option?]

/-- A part that may be left out is left out, or it is read. -/
lemma Data.recovered?_ofOption {β : Type} {toData : α → Data} {read : Node → Option β} {get : α → β}
    {value : Option α} (h : ∀ a ∈ value, ∃ n, (toData a).recovered? = some n ∧ n ≠ .null
      ∧ read n = some (get a)) :
    ∃ n, (Data.ofOption toData value).recovered? = some n ∧ n.option? read = some (value.map get) := by
  cases value with
  | none => exact ⟨.null, rfl, rfl⟩
  | some a =>
      obtain ⟨n, hn, hnull, hread⟩ := h a rfl
      exact ⟨n, hn, Node.option?_of_read hnull hread⟩

end Parts

/-- Everything is put on line zero. -/
abbrev noLine : Nat → Nat := fun _ => 0

lemma Token.Lexed.token? {t : Token} (h : t.Lexed) :
    (Node.text t.lexeme).token? = some (t.relined noLine) := h.ofLexeme?

lemma Token.Lexed.reference? {ref : Reference Unit} (h : ref.name.Lexed) :
    (Node.text ref.name.lexeme).reference? = some (ref.relined noLine) := by
  rw [Node.reference?, h.token?]
  rfl

lemma Data.recovered?_ofLiteral {value : Literal} (h : value.Lexed) :
    ∃ n, (Data.ofLiteral value).recovered? = some n ∧ n.literal? = some (.literal value) := by
  cases value with
  | zilch | bool b | string s => exact ⟨_, rfl, rfl⟩
  | number x =>
      refine ⟨.number x, ?_, rfl⟩
      change (Data.ofNumber x).recovered? = _
      unfold Data.ofNumber
      split
      · next n hn => rw [Data.recovered?, Double.ofInt_of_toInt? hn h]
      · rfl

/-! ## Expressions -/

open Data Node

mutual

/-- **An expression is recovered from its data.** -/
theorem Expr.recovered?_toData : ∀ {e : Expr Unit}, e.Lexed →
    e.toData.recovered? = some (.expr (e.relined noLine))
  | .literal value, h => by
      obtain ⟨n, hn, hliteral⟩ := Data.recovered?_ofLiteral h
      exact recovered?_expr (parts_cons hn rfl) hliteral
  | .array items, h => by
      have hitems := recovered?_list (Expr.recoveredAll?_toData h)
      exact recovered?_expr (parts_cons hitems rfl)
        (by simp [exprOf?, one, literal?, items?_expr, Expr.relined])
  | .grouping inner, h => by
      have hinner := Expr.recovered?_toData (e := inner) h
      exact recovered?_expr (parts_cons hinner rfl) rfl
  | .unary _ _, h => by
      have hoperand := Expr.recovered?_toData h.2
      exact recovered?_expr (parts_cons rfl (parts_cons hoperand rfl))
        (by simp [exprOf?, two, h.1.token?, expr?, Expr.relined])
  | .binary _ _ _, h | .logical _ _ _, h => by
      have hleft := Expr.recovered?_toData h.1
      have hright := Expr.recovered?_toData h.2.2
      exact recovered?_expr (parts_cons hleft (parts_cons rfl (parts_cons hright rfl)))
        (by simp [exprOf?, three, h.2.1.token?, expr?, Expr.relined])
  | .conditional _ _ _, h => by
      have htest := Expr.recovered?_toData h.1
      have hyes := Expr.recovered?_toData h.2.1
      have hno := Expr.recovered?_toData h.2.2
      exact recovered?_expr (parts_cons htest (parts_cons hyes (parts_cons hno rfl))) rfl
  | .variable ref, h =>
      recovered?_expr (parts_cons rfl rfl)
        (by simp [exprOf?, one, Token.Lexed.reference? h, Expr.relined])
  | .assign _ _, h => by
      have hvalue := Expr.recovered?_toData h.2
      exact recovered?_expr (parts_cons rfl (parts_cons hvalue rfl))
        (by simp [exprOf?, two, h.1.reference?, expr?, Expr.relined])
  | .step .up _, h | .step .down _, h =>
      recovered?_expr (parts_cons rfl rfl)
        (by simp [exprOf?, one, Token.Lexed.reference? h, Expr.relined])
  | .call _ _ _, h => by
      have hcallee := Expr.recovered?_toData h.1
      have hargs := recovered?_list (Expr.recoveredAll?_toData h.2.2)
      exact recovered?_expr (parts_cons hcallee (parts_cons rfl (parts_cons hargs rfl)))
        (by simp [exprOf?, three, h.2.1.token?, expr?, items?_expr, Expr.relined])
  | .get _ _ _, h => by
      have hobject := Expr.recovered?_toData h.1
      exact recovered?_expr (parts_cons hobject (parts_cons rfl (parts_cons rfl rfl)))
        (by simp [exprOf?, three, h.2.token?, expr?, flag?, Expr.relined])
  | .set _ _ _ _, h => by
      have hobject := Expr.recovered?_toData h.1
      have hvalue := Expr.recovered?_toData h.2.2
      exact recovered?_expr (parts_cons hobject (parts_cons rfl (parts_cons hvalue (parts_cons rfl rfl))))
        (by simp [exprOf?, four, h.2.1.token?, expr?, flag?, Expr.relined])
  | .receiver _, h =>
      recovered?_expr (parts_cons rfl rfl)
        (by simp [exprOf?, one, Token.Lexed.reference? h, Expr.relined])
  | .inherited _ _, h =>
      recovered?_expr (parts_cons rfl (parts_cons rfl rfl))
        (by simp [exprOf?, two, h.1.reference?, h.2.token?, Expr.relined])

theorem Expr.recoveredAll?_toData : ∀ {items : List (Expr Unit)}, Expr.LexedAll items →
    recoveredAll? (Expr.listToData items) = some ((Expr.relinedAll noLine items).map .expr)
  | [], _ => rfl
  | e :: items, h => by
      have he := Expr.recovered?_toData h.1
      have hitems := Expr.recoveredAll?_toData h.2
      simp only [Expr.listToData, recoveredAll?, he, hitems, Expr.relinedAll, List.map_cons,
        Option.bind_some, Option.map_some]

end

/-! ## Statements -/

lemma Expr.recovered?_option {value : Option (Expr Unit)} (h : ∀ e ∈ value, e.Lexed) :
    ∃ n, (ofOption Expr.toData value).recovered? = some n
      ∧ n.option? expr? = some (value.map (Expr.relined noLine)) :=
  recovered?_ofOption fun _ he => ⟨_, Expr.recovered?_toData (h _ he), by simp, rfl⟩

lemma recovered?_exprNode {e : Expr Unit} (h : e.Lexed) :
    (exprNode e).recovered? = some (.stmt (.expr (e.relined noLine))) := by
  have he := Expr.recovered?_toData h
  exact recovered?_stmt (parts_cons he rfl) rfl rfl

lemma recovered?_varNode {name : Token} {value : Option (Expr Unit)} (hname : name.Lexed)
    (hvalue : ∀ e ∈ value, e.Lexed) : (varNode name value).recovered?
      = some (.stmt (.var (name.relined noLine) (value.map (Expr.relined noLine)))) := by
  obtain ⟨n, hn, hread⟩ := Expr.recovered?_option hvalue
  exact recovered?_stmt (parts_cons rfl (parts_cons hn rfl)) rfl
    (by simp [stmtOf?, two, hname.token?, hread])

lemma recovered?_forStart {start : Option (ForStart Unit)} (h : ∀ clause ∈ start, clause.Lexed) :
    ∃ n, (ofOption ofForStart start).recovered? = some n
      ∧ n.option? forStart? = some (start.map (ForStart.relined noLine)) := by
  refine recovered?_ofOption fun clause hclause => ?_
  have hlexed := h clause hclause
  cases clause with
  | var name value => exact ⟨_, recovered?_varNode hlexed.1 hlexed.2, by simp, rfl⟩
  | expr e => exact ⟨_, recovered?_exprNode hlexed, by simp, rfl⟩

lemma recovered?_after {after : Option (Expr Unit)} (h : ∀ e ∈ after, e.Lexed) :
    ∃ n, (ofOption exprNode after).recovered? = some n
      ∧ n.option? after? = some (after.map (Expr.relined noLine)) :=
  recovered?_ofOption fun _ he => ⟨_, recovered?_exprNode (h _ he), by simp, rfl⟩

lemma recovered?_superclass {superclass : Option (Reference Unit)}
    (h : ∀ ref ∈ superclass, ref.name.Lexed) :
    ∃ n, (ofOption ofReference superclass).recovered? = some n
      ∧ n.option? superclass? = some (superclass.map (Reference.relined noLine)) := by
  refine recovered?_ofOption fun ref href => ⟨.expr (.variable (ref.relined noLine)), ?_, by simp, rfl⟩
  have hvariable : (Expr.variable ref).Lexed := h ref href
  exact Expr.recovered?_toData hvariable

lemma recovered?_routineNode {name : Token} {params : List Token} {body : List Data}
    {statements : List (Stmt Unit)} (hname : name.Lexed) (hparams : ∀ p ∈ params, p.Lexed)
    (hbody : recoveredAll? body = some (statements.map .stmt)) : (routineNode name params body).recovered?
      = some (.stmt (.routine ⟨name.relined noLine, params.map (Token.relined noLine), statements⟩)) := by
  have htokens : recoveredAll? (params.map ofToken) = some (params.map fun t => .text t.lexeme) := by
    clear hparams
    induction params with
    | nil => rfl
    | cons p params ih => simp [recoveredAll?, ofToken, recovered?, ih]
  have hread : (Node.list (params.map fun t => .text t.lexeme)).items? token?
      = some (params.map (Token.relined noLine)) := items?_map fun p hp => (hparams p hp).token?
  exact recovered?_stmt (parts_cons rfl (parts_cons (recovered?_list htokens)
    (parts_cons (recovered?_list hbody) rfl))) rfl
    (by simp [stmtOf?, three, hname.token?, hread, items?_stmt])

mutual

/-- **A statement is recovered from its data.** -/
theorem Stmt.recovered?_toData : ∀ {s : Stmt Unit}, s.Lexed →
    s.toData.recovered? = some (.stmt (s.relined noLine))
  | .expr _, h => recovered?_exprNode h
  | .echo e, h => by
      have he := Expr.recovered?_toData (e := e) h
      exact recovered?_stmt (parts_cons he rfl) rfl rfl
  | .var _ _, h => recovered?_varNode h.1 h.2
  | .block body, h => by
      have hbody := recovered?_list (Stmt.recoveredAll?_toData h)
      exact recovered?_stmt (parts_cons hbody rfl) rfl (by simp [stmtOf?, one, items?_stmt, Stmt.relined])
  | .exit _ _, h => by
      have hcode := Expr.recovered?_toData h.2
      exact recovered?_stmt (parts_cons rfl (parts_cons hcode rfl)) rfl
        (by simp [stmtOf?, two, h.1.token?, expr?, Stmt.relined])
  | .branch _ _ _, h => by
      have htest := Expr.recovered?_toData h.1
      have hyes := Stmt.recovered?_toData h.2.1
      obtain ⟨n, hno, hread⟩ := Stmt.recovered?_optionToData h.2.2
      exact recovered?_stmt (parts_cons htest (parts_cons hyes (parts_cons hno rfl))) rfl
        (by simp [stmtOf?, three, expr?, stmt?, hread, Stmt.relined])
  | .loop _ _, h => by
      have htest := Expr.recovered?_toData h.1
      have hbody := Stmt.recovered?_toData h.2
      exact recovered?_stmt (parts_cons htest (parts_cons hbody rfl)) rfl rfl
  | .forLoop _ _ _ _, h => by
      obtain ⟨start, hstart, hreadStart⟩ := recovered?_forStart h.1
      have htest := Expr.recovered?_toData h.2.1
      obtain ⟨after, hafter, hreadAfter⟩ := recovered?_after h.2.2.1
      have hbody := Stmt.recovered?_toData h.2.2.2
      exact recovered?_stmt
        (parts_cons hstart (parts_cons htest (parts_cons hafter (parts_cons hbody rfl)))) rfl
        (by simp [stmtOf?, four, expr?, stmt?, hreadStart, hreadAfter, Stmt.relined])
  | .step .up _, h | .step .down _, h =>
      recovered?_stmt (parts_cons rfl rfl) rfl
        (by simp [stmtOf?, one, Token.Lexed.reference? h, Stmt.relined])
  | .jump .breakLoop _, h | .jump .continueLoop _, h =>
      recovered?_stmt (parts_cons rfl rfl) rfl (by simp [stmtOf?, one, Token.Lexed.token? h, Stmt.relined])
  | .routine ⟨_, _, _⟩, h => recovered?_routineNode h.1 h.2.1 (Stmt.recoveredAll?_toData h.2.2)
  | .giveBack _ _, h => by
      obtain ⟨n, hn, hread⟩ := Expr.recovered?_option h.2
      exact recovered?_stmt (parts_cons rfl (parts_cons hn rfl)) rfl
        (by simp [stmtOf?, two, h.1.token?, hread, Stmt.relined])
  | .classDecl _ _ _ _ _ _, h => by
      obtain ⟨hname, hsuper, hm, hs, hg, ht⟩ := h
      obtain ⟨n, hn, hread⟩ := recovered?_superclass hsuper
      have hmethods := recovered?_list (Stmt.recovered?_routinesToData hm)
      have hstatics := recovered?_list (Stmt.recovered?_routinesToData hs)
      have hgetters := recovered?_list (Stmt.recovered?_routinesToData hg)
      have hsetters := recovered?_list (Stmt.recovered?_routinesToData ht)
      exact recovered?_stmt (parts_cons rfl (parts_cons hn (parts_cons hmethods (parts_cons hstatics
        (parts_cons hgetters (parts_cons hsetters rfl)))))) rfl
        (by simp [stmtOf?, six, hname.token?, hread, items?_routine, Stmt.relined])

theorem Stmt.recoveredAll?_toData : ∀ {items : List (Stmt Unit)}, Stmt.LexedAll items →
    recoveredAll? (Stmt.listToData items) = some ((Stmt.relinedAll noLine items).map .stmt)
  | [], _ => rfl
  | s :: items, h => by
      have hs := Stmt.recovered?_toData h.1
      have hitems := Stmt.recoveredAll?_toData h.2
      simp only [Stmt.listToData, recoveredAll?, hs, hitems, Stmt.relinedAll, List.map_cons,
        Option.bind_some, Option.map_some]

theorem Stmt.recovered?_optionToData : ∀ {s : Option (Stmt Unit)}, Stmt.LexedOption s →
    ∃ n, (Stmt.optionToData s).recovered? = some n
      ∧ n.option? stmt? = some (Stmt.relinedOption noLine s)
  | none, _ => ⟨.null, rfl, rfl⟩
  | some s, h => ⟨_, Stmt.recovered?_toData (s := s) h, rfl⟩

theorem Stmt.recovered?_routinesToData : ∀ {routines : List (Routine (Stmt Unit))},
    Stmt.LexedRoutines routines → recoveredAll? (Stmt.routinesToData routines)
      = some ((Stmt.relinedRoutines noLine routines).map fun r => .stmt (.routine r))
  | [], _ => rfl
  | ⟨_, _, _⟩ :: routines, h => by
      have hr := recovered?_routineNode h.1.1 h.1.2.1 (Stmt.recoveredAll?_toData h.1.2.2)
      have hroutines := Stmt.recovered?_routinesToData h.2
      simp only [Stmt.routinesToData, recoveredAll?, hr, hroutines, Stmt.relinedRoutines, List.map_cons,
        Option.bind_some, Option.map_some]

end

end KScript

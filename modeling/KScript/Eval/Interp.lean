import KScript.Machine

/-!
# The frame of evaluation

Evaluation is defined one level at a time: what an expression or a statement does is said in terms of
an `Interp` for its parts and for the bodies it calls.  Tying the knot over the number of levels gives
the evaluator, and what every level keeps, the evaluator keeps.
-/

namespace KScript

/-- How a statement ends. -/
inductive Completion where
  | normal
  | broke
  | continued
  | returned (value : Value)

/-- An evaluator for the parts of an expression or a statement. -/
structure Interp where
  /-- A bound on the number of turns of a loop. -/
  fuel : Nat
  eval : Env → Expr Depth → Run Value
  exec : Env → Stmt Depth → Run Completion

namespace Interp

/-- Evaluates expressions from left to right. -/
def evalAll (i : Interp) (env : Env) : List (Expr Depth) → Run (List Value)
  | [] => return []
  | e :: rest => do
    let v ← i.eval env e
    let vs ← i.evalAll env rest
    return v :: vs

/-- Evaluates an expression for whether its value counts as true. -/
def test (i : Interp) (env : Env) (e : Expr Depth) : Run Bool := do
  return (← i.eval env e).isTruthy

/-- Evaluates an expression that may be left out; its value is then `zilch`. -/
def evalOption (i : Interp) (env : Env) : Option (Expr Depth) → Run Value
  | none => return .zilch
  | some e => i.eval env e

/-- Executes statements in order, up to the first that does not end normally. -/
def execAll (i : Interp) (env : Env) : List (Stmt Depth) → Run Completion
  | [] => return .normal
  | s :: rest => do
    match ← i.exec env s with
    | .normal => i.execAll env rest
    | completion => return completion

end Interp

/--
A loop: as long as `test` holds, `body` and then `after`.  Breaking out of the body ends the loop
normally and leaves out `after`; returning from it returns.
-/
def Run.loop (test : Run Bool) (body : Run Completion) (after : Run Unit) : Nat → Run Completion
  | 0 => throw .exhausted
  | fuel + 1 => do
    if ← test then
      match ← body with
      | .broke => return .normal
      | .returned v => return .returned v
      | _ => do
        after
        Run.loop test body after fuel
    else return .normal

end KScript

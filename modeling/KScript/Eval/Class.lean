import KScript.Eval.Interp
import KScript.Scope

/-!
# Class declarations

Executing a class declaration makes a new class.  Its routines are closed over the environment of the
declaration, or over one frame more that binds the superclass.
-/

namespace KScript

/-- The superclass of a class, if it names one: the value of a variable. -/
def Interp.superclass (i : Interp) (env : Env) :
    Option (Reference Depth) → Run (Option ClassValue)
  | none => return none
  | some ref => do
    match ← i.eval env (.variable ref) with
    | .classValue cls => return some cls
    | _ => Run.fail ref.name.line .superclassNotClass

/-- The environment of the routines of a class. -/
def classEnv (env : Env) : Option ClassValue → Run Env
  | none => return env
  | some superclass => do
    let address ← Run.newFrame (.singleton Scope.superName (.classValue superclass))
    return address :: env

/-- The closures of a group of routines, by name; of two with one name the later wins. -/
def closures (env : Env) (isConstructor : String → Bool) :
    List (Routine (Stmt Depth)) → Table Closure → Run (Table Closure)
  | [], table => return table
  | decl :: rest, table => do
    let name := decl.name.lexeme
    let closure : Closure := ⟨← Run.newIdent, decl, env, isConstructor name⟩
    closures env isConstructor rest (table.insert name closure)

/-- Rebinds a name in the nearest frame that binds it. -/
def Run.assign (env : Env) (name : Token) (value : Value) : Run Unit := do
  match (← get).frames.assign? env name.lexeme value with
  | some frames => modify fun m => { m with frames }
  | none => Run.fail name.line (.undefinedVariable name.lexeme)

/-- Executes a class declaration. -/
def Interp.declareClass (i : Interp) (env : Env) (name : Token)
    (superclass : Option (Reference Depth))
    (methods statics getters setters : List (Routine (Stmt Depth))) : Run Unit := do
  Run.define env name.lexeme .zilch
  let parent ← i.superclass env superclass
  let inner ← classEnv env parent
  let methods ← closures inner (· == constructorName) methods .empty
  let statics ← closures inner (fun _ => false) statics .empty
  let getters ← closures inner (fun _ => false) getters .empty
  let setters ← closures inner (fun _ => false) setters .empty
  let own : Layer := ⟨← Run.newIdent, name.lexeme, methods, statics, getters, setters⟩
  let cls : ClassValue := ⟨own, (parent.map (·.lineage)).getD []⟩
  Run.note fun m => "class " ++ (Value.classValue cls).detailed m.fieldNames
  Run.assign env name (.classValue cls)

end KScript

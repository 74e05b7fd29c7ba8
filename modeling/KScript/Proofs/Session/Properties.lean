import KScript.Proofs.Session.Traces
import KScript.Proofs.Walk.Sessions
import Mathlib

/-!
# Properties

What `.` does over whole runs.  The fields of an object only ever grow in number, and a field comes into
being only where an expression that stands in a class writes it.  Outside of all classes, `Object.Yields` and
`Object.Takes` say what reading and writing a property of an object comes to: a get or set method stands
for the field and the method of its name, wherever in the lineage it is, and otherwise the field is read or
written, but not made.  In a class, be it another one than that of the object, no get or set method runs.
-/

namespace KScript

open Scope

/-! ## Lineages -/

namespace ClassValue

variable {cls : ClassValue} {group : Layer → Table Closure} {name : String} {c : Closure}

/-- Of the routines of that name in a group, the one of the nearest layer. -/
def Nearest (cls : ClassValue) (group : Layer → Table Closure) (name : String) (c : Closure) : Prop :=
  ∃ nearer l farther, cls.lineage = nearer ++ l :: farther ∧ (group l).find? name = some c
    ∧ ∀ k ∈ nearer, (group k).find? name = none

/-- No layer has a routine of that name in the group. -/
def Lacks (cls : ClassValue) (group : Layer → Table Closure) (name : String) : Prop :=
  ∀ l ∈ cls.lineage, (group l).find? name = none

lemma findSome?_eq_some_iff_nearest :
    cls.lineage.findSome? (fun l => (group l).find? name) = some c ↔ cls.Nearest group name c :=
  List.findSome?_eq_some_iff

lemma lacks_of_findSome? (h : cls.lineage.findSome? (fun l => (group l).find? name) = none) :
    cls.Lacks group name := List.findSome?_eq_none_iff.mp h

end ClassValue

/-! ## Outside of classes -/

namespace Object

/-- The class of the object has neither a get method nor a set method of that name. -/
def Plain (o : Object) (name : String) : Prop :=
  o.cls.Lacks (·.getters) name ∧ o.cls.Lacks (·.setters) name

variable (i : Interp) (o : Object) (name : Token)

/-- What reading a property of an object outside of all classes comes to. -/
inductive Yields (m : Machine) : EStateM.Result Signal Machine Value → Prop where
  /-- The nearest get method runs on the object. -/
  | getter {c : Closure} (h : o.cls.Nearest (·.getters) name.lexeme c) :
      Yields m (i.invokeOn c o [] m)
  /-- There is a set method alone. -/
  | setterOnly {c : Closure} (h : o.cls.Lacks (·.getters) name.lexeme)
      (hsetter : o.cls.Nearest (·.setters) name.lexeme c) :
      Yields m (.error (.failure name.line (.setterOnly name.lexeme)) m)
  | field {v : Value} (h : o.Plain name.lexeme)
      (hfield : (m.fieldsOf o.ident).find? name.lexeme = some v) : Yields m (.ok v m)
  /-- The nearest method is bound to the object. -/
  | method {c : Closure} (h : o.Plain name.lexeme)
      (hfield : (m.fieldsOf o.ident).find? name.lexeme = none)
      (hmethod : o.cls.Nearest (·.methods) name.lexeme c) :
      Yields m (.ok (.routine { c with ident := m.fresh, env := m.frames.size :: c.env })
        { m with
          frames := m.frames.push (.singleton thisName (.object o))
          fresh := m.fresh + 1 })
  | undefined (h : o.Plain name.lexeme) (hfield : (m.fieldsOf o.ident).find? name.lexeme = none)
      (hmethod : o.cls.Lacks (·.methods) name.lexeme) :
      Yields m (.error (.failure name.line (.undefinedProperty name.lexeme)) m)

/-- What writing a value to a property of an object outside of all classes comes to. -/
inductive Takes (v : Value) (m : Machine) : EStateM.Result Signal Machine Value → Prop where
  /-- The nearest set method runs on the object; what it gives back is dropped. -/
  | setter {c : Closure} (h : o.cls.Nearest (·.setters) name.lexeme c) :
      Takes v m (match i.invokeOn c o [v] m with
        | .ok _ n => .ok v n
        | .error signal n => .error signal n)
  /-- There is a get method alone. -/
  | getterOnly {c : Closure} (h : o.cls.Lacks (·.setters) name.lexeme)
      (hgetter : o.cls.Nearest (·.getters) name.lexeme c) :
      Takes v m (.error (.failure name.line (.getterOnly name.lexeme)) m)
  | field {old : Value} (h : o.Plain name.lexeme)
      (hfield : (m.fieldsOf o.ident).find? name.lexeme = some old) :
      Takes v m (.ok v { m with fields := m.fields.modify o.ident (·.insert name.lexeme v) })
  | undefined (h : o.Plain name.lexeme) (hfield : (m.fieldsOf o.ident).find? name.lexeme = none) :
      Takes v m (.error (.failure name.line (.undefinedProperty name.lexeme)) m)

variable {i o name}

lemma yields_readProperty (m : Machine) : o.Yields i name m (i.readProperty o name false m) := by
  unfold Interp.readProperty
  cases hgetter : o.cls.getter? name.lexeme with
  | some getter => exact .getter (ClassValue.findSome?_eq_some_iff_nearest.mp hgetter)
  | none =>
      have hnone : o.cls.Lacks (·.getters) name.lexeme := ClassValue.lacks_of_findSome? hgetter
      cases hsetter : o.cls.setter? name.lexeme with
      | some setter => exact .setterOnly hnone (ClassValue.findSome?_eq_some_iff_nearest.mp hsetter)
      | none =>
          have hplain : o.Plain name.lexeme := ⟨hnone, ClassValue.lacks_of_findSome? hsetter⟩
          change o.Yields i name m (o.read name m)
          rw [Object.read, Run.get_bind_apply]
          cases hfield : (m.fieldsOf o.ident).find? name.lexeme with
          | some v => exact .field hplain hfield
          | none =>
              cases hmethod : o.cls.method? name.lexeme with
              | some method => exact .method hplain hfield (ClassValue.findSome?_eq_some_iff_nearest.mp hmethod)
              | none => exact .undefined hplain hfield (ClassValue.lacks_of_findSome? hmethod)

lemma takes_writeProperty (v : Value) (m : Machine) :
    o.Takes i name v m ((i.writeProperty o name v false >>= fun _ => pure v) m) := by
  unfold Interp.writeProperty
  cases hsetter : o.cls.setter? name.lexeme with
  | some setter =>
      have htakes := Takes.setter (i := i) (v := v) (m := m) (ClassValue.findSome?_eq_some_iff_nearest.mp hsetter)
      simp only [Bool.false_eq_true, if_false, Bind.bind, EStateM.bind]
      cases hrun : i.invokeOn setter o [v] m with
      | ok w n | error signal n =>
          rw [hrun] at htakes
          exact htakes
  | none =>
      have hnone : o.cls.Lacks (·.setters) name.lexeme := ClassValue.lacks_of_findSome? hsetter
      cases hgetter : o.cls.getter? name.lexeme with
      | some getter => exact .getterOnly hnone (ClassValue.findSome?_eq_some_iff_nearest.mp hgetter)
      | none =>
          have hplain : o.Plain name.lexeme := ⟨ClassValue.lacks_of_findSome? hgetter, hnone⟩
          change o.Takes i name v m ((o.write name v false >>= fun _ => pure v) m)
          rw [Object.write, bind_assoc, Run.get_bind_apply, Bool.false_or]
          cases hfield : (m.fieldsOf o.ident).find? name.lexeme with
          | some old =>
              rw [Table.contains, hfield]
              exact .field hplain hfield
          | none =>
              rw [Table.contains, hfield]
              exact .undefined hplain hfield

end Object

section

variable {n : Nat} {env : Env} {m m₁ m₂ : Machine} {object value : Expr Depth} {name : Token}
  {inside : Bool} {o : Object} {v : Value}

lemma evalAt_get (h : evalAt n env object m = .ok (.object o) m₁) :
    evalAt (n + 1) env (.get object name inside) m = (interpAt n).readProperty o name inside m₁ := by
  change ((evalAt n env object) >>= fun target => (interpAt n).getProperty target name inside) m = _
  simp only [Bind.bind, EStateM.bind, h]
  rfl

lemma evalAt_set (h : evalAt n env object m = .ok (.object o) m₁)
    (hvalue : evalAt n env value m₁ = .ok v m₂) :
    evalAt (n + 1) env (.set object name value inside) m
      = ((interpAt n).writeProperty o name v inside >>= fun _ => pure v) m₂ := by
  simp only [evalAt, Interp.evalStep, Bind.bind, EStateM.bind, h, hvalue]
  rfl

/-- The value of an assignment to a property is the value that is assigned. -/
lemma evalAt_set_value {k : Machine} (h : evalAt (n + 1) env (.set object name value inside) m = .ok v k) :
    ∃ o m₁ m₂, evalAt n env object m = .ok (.object o) m₁ ∧ evalAt n env value m₁ = .ok v m₂ := by
  cases hobject : evalAt n env object m with
  | error signal m₁ => simp [evalAt, Interp.evalStep, Bind.bind, EStateM.bind, hobject] at h
  | ok target m₁ =>
      cases target with
      | object o =>
          cases hvalue : evalAt n env value m₁ with
          | error signal m₂ => simp [evalAt, Interp.evalStep, Bind.bind, EStateM.bind, hobject, hvalue] at h
          | ok w m₂ =>
              rw [evalAt_set hobject hvalue] at h
              simp only [Bind.bind, EStateM.bind] at h
              split at h
              · cases h
                exact ⟨o, m₁, m₂, rfl, hvalue⟩
              · cases h
      | _ =>
          simp [evalAt, Interp.evalStep, Bind.bind, EStateM.bind, hobject, Run.fail, throw,
            throwThe, MonadExceptOf.throw, EStateM.throw] at h

end

/-! ## Over whole runs -/

/-- What follows a run leaves every object its fields. -/
lemma Walk.Follows.fieldNames {α : Type} {env : Env} {x : Walk α} {y : Run α} {Q : α → Prop}
    (h : Walk.Follows Code.all (fun _ _ => True) env x y Q) (m : Machine) (ident : Nat) :
    m.fieldNames ident <+: (y.after m).fieldNames ident := by
  have hxy := h m [] m.carries_all
  unfold Run.after
  generalize x ⟨env, m, []⟩ = r at hxy
  generalize y m = r' at hxy ⊢
  cases hxy with
  | ok went _ _ _ | error went _ _ _ =>
      obtain ⟨added, hadded, -⟩ := went.fields ident
      exact ⟨added, hadded.symm⟩

namespace Session

/-- Among the footprints is that of writing the field of the object in an expression that stands in a class
of one of the scripts. -/
def WrittenInClass (sources : List String) (past : List Footprint) (ident : Nat) (field : String) :
    Prop :=
  ∃ around object name value o, .wrote (.set object name value true) o ∈ past ∧ o.ident = ident
    ∧ name.lexeme = field ∧ Stands sources around (.expr (.set object name value true))
    ∧ Construct.inClass around = true

/-- A footprint of the code that adds a field is one of an expression in a class. -/
lemma writtenInClass_of_adds {sources : List String} {past : List Footprint} {f : Footprint}
    {ident : Nat} {field : String} (hf : f ∈ past) (hcode : f.Of (code sources))
    (hadds : f.Adds ident field) : WrittenInClass sources past ident field := by
  unfold Footprint.Adds at hadds
  split at hadds
  · next object name value o =>
      obtain ⟨around, hstands⟩ := hcode
      exact ⟨around, object, name, value, o, hf, hadds.1, hadds.2, hstands,
        hstands.settled.set_inside.symm⟩
  · exact hadds.elim

/-- **Properties over whole runs.**  Whatever scripts a session has run, and whatever script it runs next:

- however an expression or a statement ends, in any state, every object has at least the fields it had;
- when the script is over, every object has the fields it had, followed by fields each of which was written by
  an expression that stands in a class of one of the scripts;
- where an expression of one of the scripts that stands outside of all classes reads or writes a property of an
  object, `Yields` and `Takes` say what it comes to, on the machine that its operands have left;
- an assignment to a property has the value that is assigned. -/
theorem properties_kept {sources : List String} {s : Session} (hs : Reached sources s)
    (source : String) (echo : Bool) :
    (∀ n env e m ident, m.fieldNames ident <+: ((evalAt n env e).after m).fieldNames ident)
      ∧ (∀ n env stmt m ident, m.fieldNames ident <+: ((execAt n env stmt).after m).fieldNames ident)
      ∧ (let walked := (Walk.runScript ⟨Machine.globalEnv, s.machine, []⟩ (source, echo)).2
        walked.machine = (s.runScript source echo).2.machine
          ∧ ∀ ident, ∃ added, walked.machine.fieldNames ident = s.machine.fieldNames ident ++ added
            ∧ ∀ field ∈ added, WrittenInClass (source :: sources) walked.past ident field)
      ∧ (∀ around object name inside,
          Stands (source :: sources) around (.expr (.get object name inside)) →
          Construct.inClass around = false →
          ∀ n env m o m₁, evalAt n env object m = .ok (.object o) m₁ →
            o.Yields (interpAt n) name m₁ (evalAt (n + 1) env (.get object name inside) m))
      ∧ (∀ around object name value inside,
          Stands (source :: sources) around (.expr (.set object name value inside)) →
          Construct.inClass around = false →
          ∀ n env m o m₁ v m₂, evalAt n env object m = .ok (.object o) m₁ →
            evalAt n env value m₁ = .ok v m₂ →
            o.Takes (interpAt n) name v m₂ (evalAt (n + 1) env (.set object name value inside) m))
      ∧ ∀ n env object name value inside m v k,
          evalAt (n + 1) env (.set object name value inside) m = .ok v k →
          ∃ o m₁ m₂, evalAt n env object m = .ok (.object o) m₁ ∧ evalAt n env value m₁ = .ok v m₂ := by
  refine ⟨fun n env e m ident => ?_, fun n env stmt m ident => ?_, ⟨?_, fun ident => ?_⟩, ?_, ?_,
    fun _ _ _ _ _ _ _ _ _ h => evalAt_set_value h⟩
  · exact ((Walk.tracks Code.all n).eval env trivial).fieldNames m ident
  · exact ((Walk.tracks Code.all n).exec env trivial).fieldNames m ident
  · exact (s.walk_runScript [] (source, echo)).2.2
  · obtain ⟨new, went, -⟩ := hs.walk source echo
    obtain ⟨added, hadded, hnew⟩ := went.fields ident
    refine ⟨added, hadded, fun field hfield => ?_⟩
    obtain ⟨f, hf, hadds⟩ := hnew field hfield
    rw [went.past, List.append_nil]
    exact writtenInClass_of_adds hf (went.code f hf) hadds
  · intro around object name inside hstands hout n env m o m₁ hobject
    obtain rfl : inside = false := hstands.settled.get_inside.trans hout
    rw [evalAt_get hobject]
    exact Object.yields_readProperty m₁
  · intro around object name value inside hstands hout n env m o m₁ v m₂ hobject hvalue
    obtain rfl : inside = false := hstands.settled.set_inside.trans hout
    rw [evalAt_set hobject hvalue]
    exact Object.takes_writeProperty v m₂

/-- A script that writes one property of `p` and reads another. -/
def usingScript : String := "p.x = true; p.y;"

/-- The expressions of that script. -/
def usingSet : Expr Depth :=
  .set (.variable ⟨word "p", none⟩) (word "x") (.literal (.bool true)) false

@[inherit_doc usingSet]
def usingGet : Expr Depth := .get (.variable ⟨word "p", none⟩) (word "y") false

lemma prepare_usingScript : prepare usingScript = ([], [.expr usingSet, .expr usingGet]) := by cbv

lemma stands_usingScript {e : Expr Depth} (h : e = usingSet ∨ e = usingGet) :
    Stands [usingScript] [] (.expr e) := by
  have hmem : Stmt.expr e ∈ [Stmt.expr usingSet, .expr usingGet] := by simpa using h
  exact (Stands.top List.mem_cons_self prepare_usingScript hmem).part List.mem_cons_self

/-- A get method and a set method that do nothing. -/
def idleGetter : Closure := ⟨1, ⟨word "y", [], []⟩, Machine.globalEnv, false⟩

@[inherit_doc idleGetter]
def idleSetter : Closure := ⟨2, ⟨word "x", [word "v"], []⟩, Machine.globalEnv, false⟩

/-- An object whose class has that get method for `y` and that set method for `x`. -/
def usedObject : Object :=
  ⟨0, ⟨⟨0, "P", .empty, .empty, .singleton "y" idleGetter, .singleton "x" idleSetter⟩, []⟩⟩

/-- A machine on which `p` is that object. -/
def usedMachine : Machine :=
  { newMachine false false "" 0 with
    frames := #[.singleton "p" (.object usedObject)]
    fields := #[.singleton "x" .zilch] }

theorem properties_kept_usingScript :
    Reached [] (Session.new true false "" 0)
      ∧ Stands [usingScript] [] (.expr usingGet) ∧ Stands [usingScript] [] (.expr usingSet)
      ∧ usedObject.Yields (interpAt 1) (word "y") usedMachine
          (evalAt 2 Machine.globalEnv usingGet usedMachine)
      ∧ usedObject.Takes (interpAt 1) (word "x") (.bool true) usedMachine
          (evalAt 2 Machine.globalEnv usingSet usedMachine) := by
  have hs : Reached [] (Session.new true false "" 0) := .new true false "" 0
  have hget := stands_usingScript (.inr rfl)
  have hset := stands_usingScript (.inl rfl)
  have hkept := (properties_kept hs usingScript false).2.2.2
  exact ⟨hs, hget, hset, hkept.1 [] _ _ _ hget rfl 1 _ usedMachine usedObject usedMachine rfl,
    hkept.2.1 [] _ _ _ _ hset rfl 1 _ usedMachine usedObject usedMachine _ usedMachine rfl rfl⟩

/-! ## Where accessors apply -/

/-- A class that reads and writes properties of any object. -/
def swapScript : String := "class Q \x7b swap(p) \x7b p.x = p.y; \x7d \x7d"

/-- The expressions in that class. -/
def swapGet : Expr Depth := .get (.variable ⟨word "p", some 0⟩) (word "y") true

@[inherit_doc swapGet]
def swapSet : Expr Depth := .set (.variable ⟨word "p", some 0⟩) (word "x") swapGet true

/-- What is around them. -/
def swapAround : List Construct := [.routine .method (word "swap"), .classDecl false]

lemma prepare_swapScript :
    prepare swapScript
      = ([], [.classDecl (word "Q") none [⟨word "swap", [word "p"], [.expr swapSet]⟩] [] [] []]) := by
  cbv

/-- The machine in the body of `swap`, where `p` is the object that the script used, with its fields. -/
def swapMachine : Machine :=
  { newMachine false false "" 0 with
    frames := #[.empty, .singleton "p" (.object usedObject)]
    fields := #[(Table.singleton "x" .zilch).insert "y" (.bool true)] }

/-- A class that looks at a property of an object of another class, with which it has nothing to do. -/
def peekScript : String :=
  "class P \x7b construct() \x7b this.x = true; \x7d get x() \x7b return false; \x7d \x7d "
    ++ "class Q \x7b peek(p) \x7b return p.x; \x7d \x7d var inside = Q().peek(P()); var outside = P().x;"

end Session

end KScript

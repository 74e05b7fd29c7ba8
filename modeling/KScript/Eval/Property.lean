import KScript.Eval.Call

/-!
# Properties

What `object.name` reads and writes.  Outside of class bodies a get or set method stands for the field
of its name, and where only one of the two exists the other use fails.  Inside of class bodies the
field itself is meant; it comes into being when it is first written there.
-/

namespace KScript

/-- The field of an object, or else the method of that name with the object as its receiver. -/
def Object.read (object : Object) (name : Token) : Run Value := do
  match ((← get).fieldsOf object.ident).find? name.lexeme with
  | some value => return value
  | none =>
    match object.cls.method? name.lexeme with
    | some method => return .routine (← method.bind object)
    | none => Run.fail name.line (.undefinedProperty name.lexeme)

/-- Writes the field of an object; a new field can only be written inside of a class body. -/
def Object.write (object : Object) (name : Token) (value : Value) (inside : Bool) :
    Run Unit := do
  if inside || ((← get).fieldsOf object.ident).contains name.lexeme then
    Run.putField object name.lexeme value
  else Run.fail name.line (.undefinedProperty name.lexeme)

namespace Interp

/-- Reads a property of an object. -/
def readProperty (i : Interp) (object : Object) (name : Token) (inside : Bool) : Run Value :=
  if inside then object.read name
  else
    match object.cls.getter? name.lexeme, object.cls.setter? name.lexeme with
    | some getter, _ => i.invokeOn getter object []
    | none, some _ => Run.fail name.line (.setterOnly name.lexeme)
    | none, none => object.read name

/-- Reads a property of any value. -/
def getProperty (i : Interp) (target : Value) (name : Token) (inside : Bool) : Run Value :=
  match target with
  | .object object => i.readProperty object name inside
  | .classValue cls =>
    match cls.static? name.lexeme with
    | some method => return .routine method
    | none => Run.fail name.line (.undefinedStatic name.lexeme)
  | _ => Run.fail name.line .propertyOfOther

/-- Writes a property of an object. -/
def writeProperty (i : Interp) (object : Object) (name : Token) (value : Value) (inside : Bool) :
    Run Unit :=
  if inside then object.write name value inside
  else
    match object.cls.setter? name.lexeme, object.cls.getter? name.lexeme with
    | some setter, _ => do
      let _ ← i.invokeOn setter object [value]
    | none, some _ => Run.fail name.line (.getterOnly name.lexeme)
    | none, none => object.write name value inside

end Interp

/-- The inherited method of that name, with the receiver of the method around as its receiver. -/
def Reference.inherited (ref : Reference Depth) (method : Token) (env : Env) : Run Value := do
  let frames := (← get).frames
  match ref.bound with
  | none => throw (.crash (.unbound Scope.superName))
  | some depth =>
    let superclass ← Run.orCrash (frames.getAt env depth Scope.superName)
    let receiver ← Run.orCrash (frames.getAt env (depth - 1) Scope.thisName)
    match superclass, receiver with
    | .classValue cls, .object object =>
      match cls.method? method.lexeme with
      | some found => return .routine (← found.bind object)
      | none => Run.fail method.line (.undefinedProperty method.lexeme)
    | _, _ => throw (.crash (.unbound Scope.superName))

end KScript

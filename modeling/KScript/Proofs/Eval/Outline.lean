import KScript.Eval.Operator
import KScript.Native
import Mathlib.Tactic.Common

/-!
# Values by their outline

Of a closure nothing can be seen but its number, its name and how many parameters it has.  Where closures are
replaced by others that look like them (`Value.recode`), texts, operators and native routines make no
difference, and what operators and native routines give back is a literal value.

The outline of a value leaves out the code of routines and keeps all else: literal values, the numbers by
which arrays, routines, classes and objects are known, names, environments and how many parameters there
are.
-/

namespace KScript

/-- The table with a function applied to all that is bound. -/
def Table.map {α β : Type} (f : α → β) (t : Table α) : Table β :=
  ⟨t.entries.map fun e => (e.1, f e.2)⟩

/-! ## Other closures in a value -/

/-- The closure that a function gives looks like the one it is given. -/
structure Closure.Recoding (f : Closure → Closure) : Prop where
  ident : ∀ c, (f c).ident = c.ident
  name : ∀ c, (f c).decl.name.lexeme = c.decl.name.lexeme
  arity : ∀ c, (f c).decl.params.length = c.decl.params.length

def Layer.recode (f : Closure → Closure) (l : Layer) : Layer :=
  ⟨l.ident, l.name, l.methods.map f, l.statics.map f, l.getters.map f, l.setters.map f⟩

def ClassValue.recode (f : Closure → Closure) (c : ClassValue) : ClassValue :=
  ⟨c.own.recode f, c.ancestors.map (Layer.recode f)⟩

namespace Value

variable {f : Closure → Closure}

mutual

/-- The value with other closures. -/
def recode (f : Closure → Closure) : Value → Value
  | .scalar literal => .scalar literal
  | .array ident items => .array ident (recodeAll f items)
  | .native n => .native n
  | .routine c => .routine (f c)
  | .classValue c => .classValue (c.recode f)
  | .object o => .object ⟨o.ident, o.cls.recode f⟩

/-- The values with other closures. -/
def recodeAll (f : Closure → Closure) : List Value → List Value
  | [] => []
  | v :: rest => recode f v :: recodeAll f rest

end

mutual

lemma display_recode (hf : Closure.Recoding f) : ∀ v : Value, (v.recode f).display = v.display
  | .scalar _ => rfl
  | .array _ items => by
      show "[" ++ ", ".intercalate (displayAll (recodeAll f items)) ++ "]" = _
      rw [displayAll_recodeAll hf items]
      rfl
  | .native _ => rfl
  | .routine c => by
      show "<sub " ++ (f c).decl.name.lexeme ++ ">" = _
      rw [hf.name]
      rfl
  | .classValue _ => rfl
  | .object _ => rfl

lemma displayAll_recodeAll (hf : Closure.Recoding f) :
    ∀ vs : List Value, displayAll (recodeAll f vs) = displayAll vs
  | [] => rfl
  | v :: rest => by
      show (v.recode f).display :: displayAll (recodeAll f rest) = _
      rw [display_recode hf v, displayAll_recodeAll hf rest]
      rfl

end

mutual

lemma detailed_recode (hf : Closure.Recoding f) (fields : Nat → List String) :
    ∀ v : Value, (v.recode f).detailed fields = v.detailed fields
  | .scalar _ => rfl
  | .array _ items => by
      show "[" ++ ", ".intercalate (detailedAll fields (recodeAll f items)) ++ "]" = _
      rw [detailedAll_recodeAll hf fields items]
      rfl
  | .native _ => rfl
  | .routine c => by
      show "<KSharpSubroutine " ++ (f c).decl.name.lexeme ++ " arity="
        ++ toString (f c).decl.params.length ++ ">" = _
      rw [hf.name, hf.arity]
      rfl
  | .classValue ⟨_, []⟩ => rfl
  | .classValue ⟨_, _ :: _⟩ => rfl
  | .object _ => rfl

lemma detailedAll_recodeAll (hf : Closure.Recoding f) (fields : Nat → List String) :
    ∀ vs : List Value, detailedAll fields (recodeAll f vs) = detailedAll fields vs
  | [] => rfl
  | v :: rest => by
      show (v.recode f).detailed fields :: detailedAll fields (recodeAll f rest) = _
      rw [detailed_recode hf fields v, detailedAll_recodeAll hf fields rest]
      rfl

end

lemma result_recode (hf : Closure.Recoding f) (fields : Nat → List String) (v : Value) :
    (v.recode f).result fields = v.result fields := by
  cases v with
  | array ident items => exact detailed_recode hf fields (.array ident items)
  | routine c => exact display_recode hf (.routine c)
  | _ => rfl

lemma same_recode (hf : Closure.Recoding f) (a b : Value) :
    (a.recode f).same (b.recode f) = a.same b := by
  cases a with
  | routine c =>
      cases b with
      | routine d =>
          show ((f c).ident == (f d).ident) = _
          rw [hf.ident, hf.ident]
          rfl
      | _ => rfl
  | _ => cases b <;> rfl

lemma isTruthy_recode (v : Value) : (v.recode f).isTruthy = v.isTruthy := by
  cases v <;> rfl

end Value

/-! ### Operators -/

namespace Operator

lemma onNumbers?_scalar {op : Kind} {a b : Float} {v : Value} (h : onNumbers? op a b = some v) :
    ∃ literal, v = .scalar literal := by
  unfold onNumbers? at h
  split at h <;> cases h <;> exact ⟨_, rfl⟩

/-- The operators give literal values. -/
lemma binary_scalar {op : Token} {a b v : Value} (h : binary op a b = .ok v) :
    ∃ literal, v = .scalar literal := by
  unfold binary at h
  split at h
  · unfold plus at h
    split at h <;> cases h <;> exact ⟨_, rfl⟩
  · cases h
    exact ⟨_, rfl⟩
  · cases h
    exact ⟨_, rfl⟩
  · unfold numeric at h
    split at h
    · split at h
      · next hsome =>
          cases h
          exact onNumbers?_scalar hsome
      · cases h
    · cases h

lemma unary_scalar {op : Token} {a v : Value} (h : unary op a = .ok v) :
    ∃ literal, v = .scalar literal := by
  unfold unary at h
  split at h <;> cases h <;> exact ⟨_, rfl⟩

variable {f : Closure → Closure}

lemma plus_recode (a b : Value) : plus (a.recode f) (b.recode f) = plus a b := by
  cases a with
  | scalar a =>
      cases b with
      | scalar b => rfl
      | _ => cases a <;> rfl
  | _ => rfl

lemma numeric_recode (op : Token) (a b : Value) :
    numeric op (a.recode f) (b.recode f) = numeric op a b := by
  cases a with
  | scalar a =>
      cases b with
      | scalar b => rfl
      | _ => cases a <;> rfl
  | _ => rfl

/-- An operator makes no difference between closures that look alike. -/
lemma binary_recode (hf : Closure.Recoding f) (op : Token) (a b : Value) :
    binary op (a.recode f) (b.recode f) = binary op a b := by
  simp only [binary, plus_recode, numeric_recode, Value.same_recode hf]

lemma unary_recode (op : Token) (a : Value) : unary op (a.recode f) = unary op a := by
  cases a with
  | scalar literal => rfl
  | _ =>
      unfold unary
      split <;> simp_all [Value.recode, Value.isTruthy]

end Operator

/-! ### Native routines -/

namespace Native

/-- A native routine gives a literal value back, fails for another reason than that a variable is not there,
or cannot round. -/
def Gives : Except NativeError Value → Prop
  | .ok v => ∃ literal, v = .scalar literal
  | .error (.failure cause) => ∀ name, cause ≠ .undefinedVariable name
  | .error (.crash crash) => crash = .roundedTooLarge

lemma gives_numberArg_bind {otherwise : Cause} (hother : ∀ name, otherwise ≠ .undefinedVariable name)
    {v : Value} {f : Float → Except NativeError Value} (h : ∀ x, Gives (f x)) :
    Gives (numberArg otherwise v >>= f) := by
  unfold numberArg
  split
  · exact h _
  · exact hother

lemma gives_rounded (x : Float) (places : Int) : Gives (rounded x places) := by
  unfold rounded
  split
  · split
    · exact ⟨_, rfl⟩
    · rfl
  · exact ⟨_, rfl⟩

lemma gives_placesArg_bind {v : Value} {f : Int → Except NativeError Value}
    (h : ∀ places, Gives (f places)) : Gives (placesArg v >>= f) := by
  unfold placesArg numberArg
  split
  · simp only [Bind.bind, Except.bind]
    split
    · next heq =>
        split at heq
        · cases heq
        · cases heq
          nofun
    · exact h _
  · nofun

lemma gives_applyRound (args : List Value) : Gives (applyRound args) := by
  unfold applyRound
  split
  · exact gives_numberArg_bind (by simp) fun x => gives_rounded x 0
  · exact gives_numberArg_bind (by simp) fun x => gives_placesArg_bind fun places => gives_rounded x places
  · nofun

lemma gives_readValue (console : Console) : Gives (readValue console).1 := by
  unfold readValue
  cases hline : console.readLine with
  | mk line rest =>
      cases line with
      | none => exact ⟨_, rfl⟩
      | some text => exact ⟨_, rfl⟩

lemma gives_applyInput (console : Console) (args : List Value) :
    Gives (applyInput console args).1 := by
  unfold applyInput
  split
  · exact gives_readValue console
  · exact gives_readValue _
  · nofun
  · nofun

lemma gives_map_numberArg {otherwise : Cause} (hother : ∀ name, otherwise ≠ .undefinedVariable name)
    {v : Value} {f : Float → Value} (h : ∀ x, ∃ literal, f x = .scalar literal) :
    Gives ((numberArg otherwise v).map f) := by
  unfold numberArg
  split
  · exact h _
  · exact hother

lemma gives_apply (n : Native) (args : List Value) (console : Console) :
    Gives (n.apply args console).1 := by
  unfold apply
  split
  · exact ⟨_, rfl⟩
  · exact gives_applyInput console _
  · exact ⟨_, rfl⟩
  · exact gives_applyRound _
  · exact gives_map_numberArg (by simp) fun _ => ⟨_, rfl⟩
  · exact gives_map_numberArg (by simp) fun _ => ⟨_, rfl⟩
  · exact ⟨_, rfl⟩
  · exact ⟨_, rfl⟩

/-! What a native routine sees of its arguments. -/

variable {f : Closure → Closure}

lemma numberArg_recode (otherwise : Cause) (v : Value) :
    numberArg otherwise (v.recode f) = numberArg otherwise v := by
  cases v <;> rfl

lemma placesArg_recode (v : Value) : placesArg (v.recode f) = placesArg v := by
  unfold placesArg
  rw [numberArg_recode]

lemma applyRound_recode : ∀ args : List Value, applyRound (Value.recodeAll f args) = applyRound args
  | [] => rfl
  | [v] => by simp only [Value.recodeAll, applyRound, numberArg_recode]
  | [v, places] => by
      simp only [Value.recodeAll, applyRound, numberArg_recode, placesArg_recode]
  | _ :: _ :: _ :: _ => rfl

lemma applyInput_recode (console : Console) :
    ∀ args : List Value, applyInput console (Value.recodeAll f args) = applyInput console args
  | [] => rfl
  | [v] => by cases v <;> rfl
  | v :: _ :: _ => by
      cases v with
      | scalar literal => cases literal <;> rfl
      | _ => rfl

lemma apply_recode (hf : Closure.Recoding f) (n : Native) (args : List Value) (console : Console) :
    n.apply (Value.recodeAll f args) console = n.apply args console := by
  cases n with
  | clock => cases args <;> rfl
  | input => exact applyInput_recode console args
  | print =>
      unfold apply
      dsimp only
      rw [Value.displayAll_recodeAll hf]
  | round =>
      unfold apply
      dsimp only
      rw [applyRound_recode]
  | snooze | sqrt =>
      cases args with
      | nil => rfl
      | cons v rest => simp only [Value.recodeAll, apply, numberArg_recode]
  | string =>
      cases args with
      | nil => rfl
      | cons v rest => simp only [Value.recodeAll, apply, Value.display_recode hf]

end Native

/-! ## Outlines -/

/-- A routine without its code: its name, and a nameless parameter for each that it has. -/
def Routine.outline (r : Routine (Stmt Depth)) : Routine (Stmt Depth) :=
  ⟨⟨.identifier, r.name.lexeme, none, 0⟩, r.params.map fun _ => ⟨.identifier, "", none, 0⟩, []⟩

def Closure.outline (c : Closure) : Closure := { c with decl := c.decl.outline }

lemma Closure.recoding_outline : Closure.Recoding Closure.outline where
  ident _ := rfl
  name _ := rfl
  arity c := by simp [Closure.outline, Routine.outline]

def Layer.outline (l : Layer) : Layer :=
  ⟨l.ident, l.name, l.methods.map Closure.outline, l.statics.map Closure.outline,
    l.getters.map Closure.outline, l.setters.map Closure.outline⟩

def ClassValue.outline (c : ClassValue) : ClassValue :=
  ⟨c.own.outline, c.ancestors.map Layer.outline⟩

namespace Value

mutual

/-- The value without the code of routines. -/
def outline : Value → Value
  | .scalar literal => .scalar literal
  | .array ident items => .array ident (outlineAll items)
  | .native n => .native n
  | .routine c => .routine c.outline
  | .classValue c => .classValue c.outline
  | .object o => .object ⟨o.ident, o.cls.outline⟩

/-- The values without the code of routines. -/
def outlineAll : List Value → List Value
  | [] => []
  | v :: rest => outline v :: outlineAll rest

end

mutual

lemma outline_eq_recode : ∀ v : Value, v.outline = v.recode Closure.outline
  | .scalar _ => rfl
  | .array ident items => congrArg (Value.array ident) (outlineAll_eq_recodeAll items)
  | .native _ => rfl
  | .routine _ => rfl
  | .classValue _ => rfl
  | .object _ => rfl

lemma outlineAll_eq_recodeAll : ∀ vs : List Value, outlineAll vs = recodeAll Closure.outline vs
  | [] => rfl
  | v :: rest => by
      simp only [outlineAll, recodeAll, outline_eq_recode v, outlineAll_eq_recodeAll rest]

end

lemma display_outline (v : Value) : v.outline.display = v.display := by
  rw [outline_eq_recode, display_recode Closure.recoding_outline]

lemma displayAll_outlineAll (vs : List Value) : displayAll (outlineAll vs) = displayAll vs := by
  rw [outlineAll_eq_recodeAll, displayAll_recodeAll Closure.recoding_outline]

lemma detailed_outline (fields : Nat → List String) (v : Value) :
    v.outline.detailed fields = v.detailed fields := by
  rw [outline_eq_recode, detailed_recode Closure.recoding_outline]

lemma detailedAll_outlineAll (fields : Nat → List String) (vs : List Value) :
    detailedAll fields (outlineAll vs) = detailedAll fields vs := by
  rw [outlineAll_eq_recodeAll, detailedAll_recodeAll Closure.recoding_outline]

lemma result_outline (fields : Nat → List String) (v : Value) :
    v.outline.result fields = v.result fields := by
  rw [outline_eq_recode, result_recode Closure.recoding_outline]

lemma isTruthy_outline (v : Value) : v.outline.isTruthy = v.isTruthy := by
  rw [outline_eq_recode, isTruthy_recode]

end Value

namespace Operator

/-- An operator sees its operands by their outlines, and itself by its kind and its text. -/
lemma binary_congr {op op' : Token} {a a' b b' : Value} (hkind : op'.kind = op.kind)
    (hlexeme : op'.lexeme = op.lexeme) (ha : a'.outline = a.outline) (hb : b'.outline = b.outline) :
    binary op' a' b' = binary op a b := by
  have hop : binary op' a' b' = binary op a' b' := by
    unfold binary numeric
    rw [hkind, hlexeme]
  have houtline : ∀ x y : Value, binary op x y = binary op x.outline y.outline := by
    intro x y
    rw [Value.outline_eq_recode, Value.outline_eq_recode, binary_recode Closure.recoding_outline]
  rw [hop, houtline a' b', ha, hb, ← houtline]

lemma unary_congr {op op' : Token} {a a' : Value} (hkind : op'.kind = op.kind)
    (ha : a'.outline = a.outline) : unary op' a' = unary op a := by
  have hop : unary op' a' = unary op a' := by
    unfold unary
    rw [hkind]
  have houtline : ∀ x : Value, unary op x = unary op x.outline := by
    intro x
    rw [Value.outline_eq_recode, unary_recode]
  rw [hop, houtline a', ha, ← houtline]

end Operator

lemma Native.apply_outline (n : Native) (args : List Value) (console : Console) :
    n.apply (Value.outlineAll args) console = n.apply args console := by
  rw [Value.outlineAll_eq_recodeAll, apply_recode Closure.recoding_outline]

end KScript

import KScript.Machine
import KScript.Proofs.Env.Frames
import Mathlib.Tactic.Common

/-!
# Cells and what values refer to

All that changes in a machine are its *cells*: the frames, and the fields of the objects.  A value refers
to cells: a routine to the frames of its environment, a class to those of its routines, an object to its
fields and to what its class refers to, an array to what its items refer to.  A cell can be reached from
some values if one of them, or something bound in a cell that can be reached, refers to it.
-/

namespace KScript

/-! ## Cells -/

/-- A frame, or the fields of an object. -/
inductive Cell where
  | frame (address : Address)
  | object (ident : Nat)
deriving DecidableEq

namespace Machine

/-- What is bound in a cell. -/
def contents (m : Machine) : Cell → Table Value
  | .frame address => m.frames.frame address
  | .object ident => m.fieldsOf ident

/-- The cell exists. -/
def Has (m : Machine) : Cell → Prop
  | .frame address => address < m.frames.size
  | .object ident => ident < m.fields.size

/-- Binds a name in a cell. -/
def put (m : Machine) (cell : Cell) (name : String) (value : Value) : Machine :=
  match cell with
  | .frame address => { m with frames := m.frames.define address name value }
  | .object ident => { m with fields := m.fields.modify ident (·.insert name value) }

end Machine

/-! ## What a value refers to -/

def Closure.Refers (c : Closure) (cell : Cell) : Prop := ∃ address ∈ c.env, cell = .frame address

/-- The closure is one of the routines of the layer. -/
def Layer.Holds (l : Layer) (c : Closure) : Prop :=
  ∃ group ∈ [l.methods, l.statics, l.getters, l.setters], ∃ name, group.find? name = some c

def ClassValue.Refers (cls : ClassValue) (cell : Cell) : Prop :=
  ∃ l ∈ cls.lineage, ∃ c, l.Holds c ∧ c.Refers cell

inductive Value.Refers : Value → Cell → Prop where
  | item {ident : Nat} {items : List Value} {v : Value} {cell : Cell} (hv : v ∈ items)
      (h : Refers v cell) : Refers (.array ident items) cell
  | routine {c : Closure} {cell : Cell} (h : c.Refers cell) : Refers (.routine c) cell
  | classValue {cls : ClassValue} {cell : Cell} (h : cls.Refers cell) : Refers (.classValue cls) cell
  | object (o : Object) : Refers (.object o) (.object o.ident)
  | ofClass {o : Object} {cell : Cell} (h : o.cls.Refers cell) : Refers (.object o) cell

/-- The cell can be reached in the machine from the global frame or from the values. -/
inductive Machine.Reaches (m : Machine) (roots : List Value) : Cell → Prop where
  | global : Reaches m roots (.frame globalAddress)
  | root {v : Value} {cell : Cell} (hv : v ∈ roots) (h : v.Refers cell) : Reaches m roots cell
  | through {source cell : Cell} {name : String} {v : Value} (hsource : Reaches m roots source)
      (hv : (m.contents source).find? name = some v) (h : v.Refers cell) : Reaches m roots cell

/-! ## Values within a set of cells -/

/-- All that is bound in the table has the property. -/
def Table.All {α : Type} (P : α → Prop) (t : Table α) : Prop := ∀ name v, t.find? name = some v → P v

namespace Table.All

variable {α : Type} {P : α → Prop} {t : Table α} {v : α}

lemma empty : (Table.empty : Table α).All P := by simp [Table.All]

lemma insert (h : t.All P) (name : String) (hv : P v) : (t.insert name v).All P := by
  intro key w hfind
  rw [Table.find?_insert] at hfind
  split at hfind
  · exact Option.some.inj hfind ▸ hv
  · exact h key w hfind

lemma singleton (name : String) (hv : P v) : (Table.singleton name v).All P := insert empty name hv

lemma ofList {entries : List (String × α)} (h : ∀ e ∈ entries, P e.2) : (Table.ofList entries).All P :=
  Table.ofList_induction empty fun _ ht e he => ht.insert e.1 (h e he)

end Table.All

variable {S : Cell → Prop}

/-- The frames of the environment are among the cells. -/
def Env.Within (S : Cell → Prop) (env : Env) : Prop := ∀ address ∈ env, S (.frame address)

/-- The closure refers to no other cells. -/
def Closure.Within (S : Cell → Prop) (c : Closure) : Prop := Env.Within S c.env

/-- All routines of the class have the property. -/
def ClassValue.Holding (P : Closure → Prop) (cls : ClassValue) : Prop :=
  ∀ l ∈ cls.lineage, ∀ c, l.Holds c → P c

/-- The class refers to no other cells. -/
abbrev ClassValue.Within (S : Cell → Prop) (cls : ClassValue) : Prop := cls.Holding (Closure.Within S)

/-- The value refers to no other cells. -/
def Value.Within (S : Cell → Prop) (v : Value) : Prop := ∀ cell, v.Refers cell → S cell

lemma Env.Within.cons {env : Env} {address : Address} (h : Env.Within S env) (haddress : S (.frame address)) :
    Env.Within S (address :: env) :=
  List.forall_mem_cons.mpr ⟨haddress, h⟩

namespace ClassValue

variable {cls : ClassValue}

lemma Within.refers (h : cls.Within S) {cell : Cell} (href : cls.Refers cell) : S cell := by
  obtain ⟨l, hl, c, hc, address, haddress, rfl⟩ := href
  exact h l hl c hc address haddress

lemma Within.of_refers (h : ∀ cell, cls.Refers cell → S cell) : cls.Within S :=
  fun l hl c hc address haddress => h _ ⟨l, hl, c, hc, address, haddress, rfl⟩

namespace Holding

variable {P : Closure → Prop} {c : Closure} {name : String}

/-- A routine that is found in one of the four groups. -/
lemma of_findSome? {group : Layer → Table Closure} (h : cls.Holding P)
    (hgroup : ∀ l : Layer, group l ∈ [l.methods, l.statics, l.getters, l.setters])
    (hfind : cls.lineage.findSome? (fun l => (group l).find? name) = some c) : P c := by
  obtain ⟨l, hl, hfound⟩ := List.exists_of_findSome?_eq_some hfind
  exact h l hl c ⟨group l, hgroup l, name, hfound⟩

lemma method (h : cls.Holding P) (hfind : cls.method? name = some c) : P c := h.of_findSome? (by simp) hfind

lemma static (h : cls.Holding P) (hfind : cls.static? name = some c) : P c := h.of_findSome? (by simp) hfind

lemma getter (h : cls.Holding P) (hfind : cls.getter? name = some c) : P c := h.of_findSome? (by simp) hfind

lemma setter (h : cls.Holding P) (hfind : cls.setter? name = some c) : P c := h.of_findSome? (by simp) hfind

end Holding

end ClassValue

/-- The routines of a layer have the property if those of its groups do. -/
lemma Layer.forall_holds {P : Closure → Prop} {ident : Nat} {name : String}
    {methods statics getters setters : Table Closure} (hm : methods.All P) (hs : statics.All P)
    (hg : getters.All P) (ht : setters.All P) :
    ∀ c, (Layer.mk ident name methods statics getters setters).Holds c → P c := by
  rintro c ⟨group, hgroup, key, hfind⟩
  simp only [List.mem_cons, List.not_mem_nil, or_false] at hgroup
  rcases hgroup with rfl | rfl | rfl | rfl
  · exact hm key c hfind
  · exact hs key c hfind
  · exact hg key c hfind
  · exact ht key c hfind

namespace Value

@[simp] lemma within_scalar (literal : Literal) : (Value.scalar literal).Within S := nofun

@[simp] lemma within_array {ident : Nat} {items : List Value} :
    (Value.array ident items).Within S ↔ ∀ v ∈ items, v.Within S := by
  constructor
  · exact fun h v hv cell hcell => h cell (.item hv hcell)
  · rintro h cell (⟨hv, hcell⟩ | _)
    exact h _ hv cell hcell

@[simp] lemma within_routine {c : Closure} : (Value.routine c).Within S ↔ c.Within S := by
  constructor
  · exact fun h address haddress => h _ (.routine ⟨address, haddress, rfl⟩)
  · rintro h cell (_ | ⟨address, haddress, rfl⟩)
    exact h address haddress

@[simp] lemma within_classValue {cls : ClassValue} : (Value.classValue cls).Within S ↔ cls.Within S := by
  constructor
  · exact fun h => .of_refers fun cell hcell => h cell (.classValue hcell)
  · rintro h cell (_ | _ | hcell)
    exact h.refers hcell

@[simp] lemma within_object {o : Object} :
    (Value.object o).Within S ↔ S (.object o.ident) ∧ o.cls.Within S := by
  constructor
  · exact fun h => ⟨h _ (.object o), .of_refers fun cell hcell => h cell (.ofClass hcell)⟩
  · rintro ⟨hobject, hcls⟩ cell (_ | _ | _ | _ | hcell)
    · exact hobject
    · exact hcls.refers hcell

end Value

end KScript

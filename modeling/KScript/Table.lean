/-!
# Insertion-ordered tables

A `Table α` binds names to values and remembers the order in which the names first came in.  Frames,
the fields of an object and the method groups of a class are all tables: rebinding a name keeps its
place, and no name is ever removed.
-/

namespace KScript

/-- A finite map from names to `α`, in order of first insertion. -/
structure Table (α : Type) where
  /-- The bindings, oldest name first. -/
  entries : List (String × α)
deriving Inhabited

namespace Table

variable {α : Type}

/-- The table that binds nothing. -/
def empty : Table α := ⟨[]⟩

/-- What the first entry of that name in a list of entries is bound to. -/
def lookup (name : String) : List (String × α) → Option α
  | [] => none
  | (key, value) :: rest => if key = name then some value else lookup name rest

/-- The entries after binding `name`: in place if it is there, at the end otherwise. -/
def bind (name : String) (value : α) : List (String × α) → List (String × α)
  | [] => [(name, value)]
  | (key, old) :: rest =>
    if key = name then (name, value) :: rest else (key, old) :: bind name value rest

/-- What `name` is bound to. -/
def find? (t : Table α) (name : String) : Option α := lookup name t.entries

/-- Whether `name` is bound. -/
def contains (t : Table α) (name : String) : Bool := (t.find? name).isSome

/-- Binds `name` to `value`; a name that is already bound keeps its place. -/
def insert (t : Table α) (name : String) (value : α) : Table α := ⟨bind name value t.entries⟩

/-- The bound names, oldest first. -/
def keys (t : Table α) : List String := t.entries.map Prod.fst

/-- The table with one binding. -/
def singleton (name : String) (value : α) : Table α := ⟨[(name, value)]⟩

/-- Binds the listed names one after the other, so that the last value of a name wins. -/
def ofList (entries : List (String × α)) : Table α :=
  entries.foldl (fun t entry => t.insert entry.1 entry.2) empty

/-! ## Laws of lookup -/

@[simp] theorem find?_empty (name : String) : (empty : Table α).find? name = none := rfl

theorem lookup_bind (name key : String) (value : α) (es : List (String × α)) :
    lookup key (bind name value es) = if name = key then some value else lookup key es := by
  induction es with
  | nil => simp [bind, lookup]
  | cons e rest ih =>
    obtain ⟨k, old⟩ := e
    by_cases hk : k = name <;> by_cases hn : name = key <;> by_cases hkk : k = key <;>
      simp_all [bind, lookup]

/-- A table after `insert` answers with the new value at that name and as before elsewhere. -/
theorem find?_insert (t : Table α) (name key : String) (value : α) :
    (t.insert name value).find? key = if name = key then some value else t.find? key :=
  lookup_bind name key value t.entries

@[simp] theorem find?_insert_self (t : Table α) (name : String) (value : α) :
    (t.insert name value).find? name = some value := by
  simp [find?_insert]

end Table

end KScript

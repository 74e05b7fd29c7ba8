import KScript.Failure
import KScript.Table

/-!
# Frames and environments

Variables live in frames, and a frame is known by its address.  An environment is the list of the
addresses that are in sight, innermost first: it never changes once it is made, and the frame a given
number of steps out is the entry at that place.  Only the bindings in the frames change.
-/

namespace KScript

/-- The place of a frame. -/
abbrev Address := Nat

/-- The frames in sight, innermost first. -/
abbrev Env := List Address

/-- All frames, by address. -/
abbrev Frames (α : Type) := Array (Table α)

namespace Frames

variable {α : Type}

/-- The bindings of a frame. -/
def frame (frames : Frames α) (address : Address) : Table α := frames[address]?.getD Table.empty

/-- Binds a name in one frame. -/
def define (frames : Frames α) (address : Address) (name : String) (value : α) : Frames α :=
  frames.modify address (·.insert name value)

/-- The value of a name in the nearest frame that binds it. -/
def get? (frames : Frames α) : Env → String → Option α
  | [], _ => none
  | address :: outer, name =>
    match (frames.frame address).find? name with
    | some value => some value
    | none => frames.get? outer name

/-- Rebinds a name in the nearest frame that binds it. -/
def assign? (frames : Frames α) : Env → String → α → Option (Frames α)
  | [], _, _ => none
  | address :: outer, name, value =>
    if (frames.frame address).contains name then some (frames.define address name value)
    else frames.assign? outer name value

/-- The value of a name in the frame that is `depth` steps out. -/
def getAt (frames : Frames α) (env : Env) (depth : Nat) (name : String) : Except Crash α :=
  match env[depth]? with
  | none => .error .offChain
  | some address =>
    match (frames.frame address).find? name with
    | none => .error (.unbound name)
    | some value => .ok value

/-- Binds a name in the frame that is `depth` steps out. -/
def assignAt (frames : Frames α) (env : Env) (depth : Nat) (name : String) (value : α) :
    Except Crash (Frames α) :=
  match env[depth]? with
  | none => .error .offChain
  | some address => .ok (frames.define address name value)

end Frames

end KScript

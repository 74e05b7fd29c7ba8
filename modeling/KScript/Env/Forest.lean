import KScript.Env

/-!
# Frames on their own

A forest of frames under single operations: each frame has a number and stands inside the frame it was
made in, or is a root.  This is the environment of a script without the script.
-/

namespace KScript

/-- Numbered frames, each with the environment that begins with it. -/
structure Forest (α : Type) where
  frames : Frames α
  envs : Array Env

namespace Forest

variable {α : Type}

/-- One root without bindings, with the number zero. -/
def initial : Forest α := ⟨#[Table.empty], #[[0]]⟩

/-- The environment of a frame. -/
def env (f : Forest α) (i : Nat) : Env := f.envs[i]?.getD []

/-- What can be done to frames. -/
inductive Action (α : Type) where
  | push (i : Nat)
  | define (i : Nat) (name : String) (value : α)
  | assign (i : Nat) (name : String) (value : α)
  | assignAt (i depth : Nat) (name : String) (value : α)
  | get (i : Nat) (name : String)
  | getAt (i depth : Nat) (name : String)
  | ancestor (i depth : Nat)
  | contains (i : Nat) (name : String)

/-- What an action answers. -/
inductive Reply (α : Type) where
  | nothing
  | value (v : α)
  | frame (i : Nat)
  | bool (b : Bool)
  /-- The name is bound in no frame in sight. -/
  | undefined (name : String)
  | crash (c : Crash)

/-- The frame `depth` steps out: a number, nothing one step past the root, a crash beyond that. -/
def ancestor (f : Forest α) (i depth : Nat) : Reply α :=
  match (f.env i)[depth]? with
  | some address => .frame address
  | none => if depth = (f.env i).length then .nothing else .crash .offChain

/-- Carries out an action. -/
def act (f : Forest α) : Action α → Reply α × Forest α
  | .push i =>
    let number := f.frames.size
    (.frame number, ⟨f.frames.push Table.empty, f.envs.push (number :: f.env i)⟩)
  | .define i name value => (.nothing, { f with frames := f.frames.define i name value })
  | .assign i name value =>
    match f.frames.assign? (f.env i) name value with
    | some frames => (.nothing, { f with frames })
    | none => (.undefined name, f)
  | .assignAt i depth name value =>
    match f.frames.assignAt (f.env i) depth name value with
    | .ok frames => (.nothing, { f with frames })
    | .error c => (.crash c, f)
  | .get i name =>
    match f.frames.get? (f.env i) name with
    | some v => (.value v, f)
    | none => (.undefined name, f)
  | .getAt i depth name =>
    match f.frames.getAt (f.env i) depth name with
    | .ok v => (.value v, f)
    | .error c => (.crash c, f)
  | .ancestor i depth => (f.ancestor i depth, f)
  | .contains i name => (.bool ((f.frames.frame i).contains name), f)

end Forest

end KScript

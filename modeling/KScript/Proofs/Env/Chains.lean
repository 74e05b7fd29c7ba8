import KScript.Env.Forest
import KScript.Proofs.Env.Frames
import Mathlib.Order.Bounds.Defs

/-!
# Chains of frames

Each frame has one link, to the frame it was made in, and links are never changed, so the frames stay a
forest whatever is done to them (`Forest.Linked`).  A name means the first frame along the links that binds
it: the walk in search of the name and the lookup by distance lead to the same binding (`Forest.Lawful`),
and a write changes that binding only.
-/

namespace KScript

namespace Forest

variable {α : Type} {f : Forest α} {i j depth : Nat} {name : String}

/-! ## Links -/

/-- Carries out the actions one after the other. -/
def run (f : Forest α) (actions : List (Action α)) : Forest α :=
  actions.foldl (fun f a => (f.act a).2) f

/-- The frame that a frame stands in. -/
def enclosing (f : Forest α) (i : Nat) : Option Nat := (f.env i)[1]?

/-- The frame that is reached over `depth` links. -/
def outward (f : Forest α) (i : Nat) : Nat → Option Nat
  | 0 => if i < f.frames.size then some i else none
  | depth + 1 => (f.outward i depth).bind f.enclosing

/-- The frame `depth` steps out binds the name. -/
def Binds (f : Forest α) (i : Nat) (name : String) (depth : Nat) : Prop :=
  ∃ j, (f.act (.ancestor i depth)).1 = .frame j ∧ (f.act (.contains j name)).1 = .bool true

/-- The forests differ in one binding of one frame at most, which is the value in the second. -/
structure Rebinds (f : Forest α) (j : Nat) (name : String) (value : α) (next : Forest α) : Prop where
  size : next.frames.size = f.frames.size
  bound : (next.frames.frame j).find? name = some value
  names : ∀ key ≠ name, (next.frames.frame j).find? key = (f.frames.frame j).find? key
  frames : ∀ k ≠ j, next.frames.frame k = f.frames.frame k

/-- The name and the value that an action would bind. -/
def Action.written : Action α → Option (String × α)
  | .define _ name value | .assign _ name value | .assignAt _ _ name value => some (name, value)
  | .push _ | .get _ _ | .getAt _ _ _ | .ancestor _ _ | .contains _ _ => none

/-- Whether the reply is a failure. -/
def Reply.raises : Reply α → Bool
  | .undefined _ | .crash _ => true
  | .nothing | .value _ | .frame _ | .bool _ => false

/-! ## What an action does -/

/-- An action makes a frame, leaves the forest as it is or binds what it would bind in one frame. -/
lemma act_cases (f : Forest α) (a : Action α) :
    (∃ i, a = .push i) ∨ (f.act a).2 = f
      ∨ ∃ j name value, a.written = some (name, value)
        ∧ f.act a = (.nothing, { f with frames := f.frames.define j name value }) := by
  cases a with
  | push i => exact .inl ⟨i, rfl⟩
  | define i name value => exact .inr (.inr ⟨i, name, value, rfl, rfl⟩)
  | assign i name value =>
      cases hassign : f.frames.assign? (f.env i) name value with
      | none => exact .inr (.inl (by simp [act, hassign]))
      | some next =>
          obtain ⟨j, -, rfl⟩ := Frames.assign?_eq_some hassign
          exact .inr (.inr ⟨j, name, value, rfl, by simp [act, hassign]⟩)
  | assignAt i depth name value =>
      cases hout : (f.env i)[depth]? with
      | none => exact .inr (.inl (by simp [act, Frames.assignAt, hout]))
      | some j => exact .inr (.inr ⟨j, name, value, rfl, by simp [act, Frames.assignAt, hout]⟩)
  | get i name | getAt i depth name => exact .inr (.inl (by unfold act; dsimp only; split <;> rfl))
  | ancestor i depth => exact .inr (.inl rfl)
  | contains i name => exact .inr (.inl rfl)

lemma rebinds_define (hj : j < f.frames.size) (name : String) (value : α) :
    f.Rebinds j name value { f with frames := f.frames.define j name value } where
  size := Frames.size_define ..
  bound := by simp [Frames.frame_define, hj]
  names key hkey := by simp [Frames.frame_define, hj, Table.find?_insert, hkey.symm]
  frames k hk := by simp [Frames.frame_define, hk.symm]

/-- A frame that is not there binds nothing. -/
lemma define_eq_self (hj : ¬j < f.frames.size) (name : String) (value : α) :
    f.frames.define j name value = f.frames := by
  unfold Frames.define
  ext k h h'
  · simp
  · rw [Array.getElem_modify, if_neg]
    rintro rfl
    exact hj h'

/-! ## The forest -/

/-- Each environment begins with its own frame and goes on with the environment of an older one, if there
is more of it. -/
structure Linked (f : Forest α) : Prop where
  size : f.envs.size = f.frames.size
  env : ∀ i < f.frames.size, f.env i = [i] ∨ ∃ j < i, f.env i = i :: f.env j

lemma linked_initial : (initial : Forest α).Linked where
  size := rfl
  env i hi := by
    obtain rfl : i = 0 := Nat.lt_one_iff.mp hi
    exact .inl rfl

namespace Linked

lemma env_eq_nil (h : f.Linked) (hi : f.frames.size ≤ i) : f.env i = [] := by
  rw [← h.size] at hi
  simp [Forest.env, hi]

lemma env_push (f : Forest α) (outer : Env) (frames : Frames α) (k : Nat) :
    Forest.env ⟨frames, f.envs.push outer⟩ k = if k = f.envs.size then outer else f.env k := by
  unfold Forest.env
  rw [Array.getElem?_push]
  split <;> rfl

lemma push (h : f.Linked) (i : Nat) : (f.act (.push i)).2.Linked where
  size := by simp [act, h.size]
  env k hk := by
    simp only [act, Array.size_push, env_push, h.size] at hk ⊢
    by_cases hnew : k = f.frames.size
    · subst hnew
      rw [if_pos rfl]
      by_cases hi : i < f.frames.size
      · exact .inr ⟨i, hi, by rw [if_neg (Nat.ne_of_lt hi)]⟩
      · exact .inl (by rw [h.env_eq_nil (Nat.le_of_not_lt hi)])
    · rw [if_neg hnew]
      rcases h.env k (by omega) with hroot | ⟨j, hj, heq⟩
      · exact .inl hroot
      · exact .inr ⟨j, hj, by rw [if_neg (by omega), heq]⟩

lemma define (h : f.Linked) (j : Nat) (name : String) (value : α) :
    Linked { f with frames := f.frames.define j name value } where
  size := by rw [Frames.size_define, h.size]
  env k hk := h.env k (by simpa using hk)

/-- **Every action keeps the forest a forest.** -/
lemma act (h : f.Linked) (a : Action α) : (f.act a).2.Linked := by
  rcases f.act_cases a with ⟨i, rfl⟩ | hsame | ⟨j, name, value, -, heq⟩
  · exact h.push i
  · rwa [hsame]
  · rw [heq]
    exact h.define j name value

lemma run (h : f.Linked) (actions : List (Action α)) : (f.run actions).Linked := by
  induction actions generalizing f with
  | nil => exact h
  | cons a rest ih => exact ih (h.act a)

/-! ## Walking along the links -/

lemma env_eq_cons (h : f.Linked) (hi : i < f.frames.size) : ∃ outer, f.env i = i :: outer := by
  rcases h.env i hi with hroot | ⟨j, -, heq⟩
  · exact ⟨[], hroot⟩
  · exact ⟨_, heq⟩

/-- What is left of an environment past some of its frames is the environment of the next frame. -/
lemma drop (h : f.Linked) (hout : (f.env i)[depth]? = some j) : (f.env i).drop depth = f.env j := by
  induction depth generalizing i with
  | zero =>
      by_cases hi : i < f.frames.size
      · obtain ⟨outer, heq⟩ := h.env_eq_cons hi
        rw [heq] at hout
        obtain rfl : i = j := by simpa using hout
        rw [List.drop_zero]
      · simp [h.env_eq_nil (Nat.le_of_not_lt hi)] at hout
  | succ depth ih =>
      by_cases hi : i < f.frames.size
      · rcases h.env i hi with heq | ⟨k, -, heq⟩
        · simp [heq] at hout
        · rw [heq, List.getElem?_cons_succ] at hout
          rw [heq, List.drop_succ_cons]
          exact ih hout
      · simp [h.env_eq_nil (Nat.le_of_not_lt hi)] at hout

lemma lt_size (h : f.Linked) (hout : (f.env i)[depth]? = some j) : j < f.frames.size := by
  by_contra hj
  have hnil := h.drop hout
  rw [h.env_eq_nil (Nat.le_of_not_lt hj), List.drop_eq_nil_iff] at hnil
  rw [List.getElem?_eq_none hnil] at hout
  cases hout

/-- The entries of an environment are the frames along the links. -/
lemma outward_eq (h : f.Linked) (i depth : Nat) : f.outward i depth = (f.env i)[depth]? := by
  induction depth with
  | zero =>
      unfold outward
      split
      · next hi =>
          obtain ⟨outer, heq⟩ := h.env_eq_cons hi
          simp [heq]
      · next hi => simp [h.env_eq_nil (Nat.le_of_not_lt hi)]
  | succ depth ih =>
      rw [outward, ih]
      cases hout : (f.env i)[depth]? with
      | none =>
          have hshort : (f.env i).length ≤ depth + 1 :=
            Nat.le_succ_of_le (List.getElem?_eq_none_iff.mp hout)
          rw [List.getElem?_eq_none hshort, Option.bind_none]
      | some j => rw [Option.bind_some, enclosing, ← h.drop hout, List.getElem?_drop]

lemma enclosing_lt (h : f.Linked) (hlink : f.enclosing i = some j) : j < i := by
  unfold enclosing at hlink
  by_cases hi : i < f.frames.size
  · rcases h.env i hi with heq | ⟨k, hk, heq⟩
    · simp [heq] at hlink
    · rw [heq, List.getElem?_cons_succ] at hlink
      obtain ⟨outer, hcons⟩ := h.env_eq_cons (Nat.lt_trans hk hi)
      rw [hcons] at hlink
      obtain rfl : k = j := by simpa using hlink
      exact hk
  · simp [h.env_eq_nil (Nat.le_of_not_lt hi)] at hlink

/-- The links out of a frame end at a root. -/
lemma exists_root (h : f.Linked) (hi : i < f.frames.size) :
    ∃ depth root, f.outward i depth = some root ∧ f.enclosing root = none := by
  obtain ⟨outer, heq⟩ := h.env_eq_cons hi
  obtain ⟨root, hlast⟩ : ∃ root, (f.env i)[outer.length]? = some root :=
    ⟨_, List.getElem?_eq_getElem (by simp [heq])⟩
  refine ⟨outer.length, root, (h.outward_eq ..).trans hlast, ?_⟩
  rw [enclosing, ← h.drop hlast, List.getElem?_drop]
  simp [heq]

lemma enclosing_act (h : f.Linked) (a : Action α) (hi : i < f.frames.size) :
    (f.act a).2.enclosing i = f.enclosing i ∧ i < (f.act a).2.frames.size := by
  rcases f.act_cases a with ⟨k, rfl⟩ | hsame | ⟨j, name, value, -, heq⟩
  · simp only [Forest.act, enclosing, env_push, h.size, if_neg (Nat.ne_of_lt hi), Array.size_push]
    exact ⟨trivial, Nat.lt_succ_of_lt hi⟩
  · rw [hsame]
    exact ⟨rfl, hi⟩
  · rw [heq]
    exact ⟨rfl, by simpa using hi⟩

/-- **No link of a frame ever changes.** -/
lemma enclosing_run (h : f.Linked) (actions : List (Action α)) (hi : i < f.frames.size) :
    (f.run actions).enclosing i = f.enclosing i := by
  induction actions generalizing f with
  | nil => rfl
  | cons a rest ih =>
      obtain ⟨hlink, hlt⟩ := h.enclosing_act a hi
      exact (ih (h.act a) hlt).trans hlink

end Linked

/-! ## The law -/

lemma ancestor_eq_frame_iff : (f.act (.ancestor i depth)).1 = .frame j ↔ (f.env i)[depth]? = some j := by
  unfold act ancestor
  dsimp only
  cases (f.env i)[depth]? with
  | none => by_cases hlast : depth = (f.env i).length <;> simp [hlast]
  | some address => simp

lemma binds_iff :
    f.Binds i name depth
      ↔ ∃ j, (f.env i)[depth]? = some j ∧ (f.frames.frame j).contains name = true := by
  unfold Binds
  simp only [ancestor_eq_frame_iff]
  simp [act]

/-- The least distance at which a name is bound leads to the first frame that binds it. -/
lemma exists_first (h : IsLeast {d | f.Binds i name d} depth) :
    ∃ j, f.frames.First (f.env i) name depth j := by
  obtain ⟨j, hout, hbinds⟩ := binds_iff.mp h.1
  refine ⟨j, hout, hbinds, ?_⟩
  intro d hd inner hinner
  by_contra hbound
  have hle := h.2 (binds_iff.mpr ⟨inner, hinner, by simpa using hbound⟩ : f.Binds i name d)
  omega

/-- What a forest of frames promises. -/
structure Lawful (f : Forest α) : Prop where
  /-- A new frame stands in the frame that it is made in. -/
  push : ∀ i < f.frames.size, (f.act (.push i)).1 = .frame f.frames.size
    ∧ (f.act (.push i)).2.enclosing f.frames.size = some i
  /-- Whatever is done later, a frame stands where it stands. -/
  links : ∀ actions, ∀ i < f.frames.size, (f.run actions).enclosing i = f.enclosing i
  /-- Links lead to older frames, so that none leads back. -/
  older : ∀ i j, f.enclosing i = some j → j < i
  ends : ∀ i < f.frames.size, ∃ depth root, f.outward i depth = some root ∧ f.enclosing root = none
  /-- A distance is a number of links. -/
  ancestor : ∀ i depth j, (f.act (.ancestor i depth)).1 = .frame j ↔ f.outward i depth = some j
  /-- The walk in search of a name goes to the least distance at which it is bound, and no further. -/
  nearest : ∀ i name depth, IsLeast {d | f.Binds i name d} depth →
    ∃ j, (f.act (.ancestor i depth)).1 = .frame j
      ∧ (∃ value, (f.frames.frame j).find? name = some value
        ∧ f.act (.get i name) = (.value value, f) ∧ f.act (.getAt i depth name) = (.value value, f))
      ∧ ∀ value, ∃ next, f.Rebinds j name value next
        ∧ f.act (.assign i name value) = (.nothing, next)
        ∧ f.act (.assignAt i depth name value) = (.nothing, next)
  missing : ∀ i name, (∀ depth, ¬f.Binds i name depth) →
    f.act (.get i name) = (.undefined name, f)
      ∧ ∀ value, f.act (.assign i name value) = (.undefined name, f)
  define : ∀ i < f.frames.size, ∀ name value, (f.act (.define i name value)).1 = .nothing
    ∧ f.Rebinds i name value (f.act (.define i name value)).2
  /-- No action changes more than the binding that it is for. -/
  writes : ∀ (a : Action α) name value, a.written = some (name, value) →
    (f.act a).2 = f ∨ ∃ j, f.Rebinds j name value (f.act a).2
  raises : ∀ a, (f.act a).1.raises = true → (f.act a).2 = f

namespace Linked

lemma act_push (h : f.Linked) (hi : i < f.frames.size) :
    (f.act (.push i)).1 = .frame f.frames.size
      ∧ (f.act (.push i)).2.enclosing f.frames.size = some i := by
  obtain ⟨outer, heq⟩ := h.env_eq_cons hi
  refine ⟨rfl, ?_⟩
  simp only [Forest.act, enclosing, env_push, h.size, if_true, List.getElem?_cons_succ, heq]
  rfl

lemma act_nearest (h : f.Linked) (hleast : IsLeast {d | f.Binds i name d} depth) :
    ∃ j, (f.act (.ancestor i depth)).1 = .frame j
      ∧ (∃ value, (f.frames.frame j).find? name = some value
        ∧ f.act (.get i name) = (.value value, f) ∧ f.act (.getAt i depth name) = (.value value, f))
      ∧ ∀ value, ∃ next, f.Rebinds j name value next
        ∧ f.act (.assign i name value) = (.nothing, next)
        ∧ f.act (.assignAt i depth name value) = (.nothing, next) := by
  obtain ⟨j, hfirst⟩ := exists_first hleast
  refine ⟨j, ancestor_eq_frame_iff.mpr hfirst.out, ?_, fun value => ?_⟩
  · obtain ⟨value, hvalue⟩ := Option.isSome_iff_exists.mp hfirst.binds
    refine ⟨value, hvalue, ?_, ?_⟩
    · simp only [Forest.act, hfirst.get? hvalue]
    · simp only [Forest.act, hfirst.getAt hvalue]
  · refine ⟨_, rebinds_define (h.lt_size hfirst.out) name value, ?_, ?_⟩
    · simp only [Forest.act, hfirst.assign? value]
    · simp only [Forest.act, hfirst.assignAt value]

end Linked

lemma act_missing (hmissing : ∀ depth, ¬f.Binds i name depth) :
    f.act (.get i name) = (.undefined name, f)
      ∧ ∀ value, f.act (.assign i name value) = (.undefined name, f) := by
  have hnone : ∀ address ∈ f.env i, (f.frames.frame address).contains name = false := by
    intro address hmem
    obtain ⟨depth, hout⟩ := List.mem_iff_getElem?.mp hmem
    by_contra hbound
    exact hmissing depth (binds_iff.mpr ⟨address, hout, by simpa using hbound⟩)
  refine ⟨?_, fun value => ?_⟩
  · simp only [act, Frames.get?_eq_none hnone]
  · simp only [act, Frames.assign?_eq_none hnone]

lemma act_written {a : Action α} {value : α} (hwritten : a.written = some (name, value)) :
    (f.act a).2 = f ∨ ∃ j, f.Rebinds j name value (f.act a).2 := by
  rcases f.act_cases a with ⟨i, rfl⟩ | hsame | ⟨j, key, bound, hkey, heq⟩
  · cases hwritten
  · exact .inl hsame
  · rw [hwritten] at hkey
    cases hkey
    rw [heq]
    by_cases hj : j < f.frames.size
    · exact .inr ⟨j, rebinds_define hj name value⟩
    · exact .inl (by rw [define_eq_self hj])

/-- What raises a failure changes nothing. -/
lemma act_raises {a : Action α} (hraises : (f.act a).1.raises = true) : (f.act a).2 = f := by
  rcases f.act_cases a with ⟨i, rfl⟩ | hsame | ⟨j, name, value, -, heq⟩
  · cases hraises
  · exact hsame
  · rw [heq] at hraises
    cases hraises

/-- **The law of chains.**  After any actions on frames, the links form a forest that nothing changes, a name
means its nearest binding however it is looked up, and an action changes one binding at most and none if it
fails. -/
theorem lawful_run (actions : List (Action α)) : (initial.run actions).Lawful where
  push i hi := (linked_initial.run actions).act_push hi
  links more i hi := (linked_initial.run actions).enclosing_run more hi
  older i j hlink := (linked_initial.run actions).enclosing_lt hlink
  ends i hi := (linked_initial.run actions).exists_root hi
  ancestor i depth j := by rw [ancestor_eq_frame_iff, (linked_initial.run actions).outward_eq]
  nearest i name depth hleast := (linked_initial.run actions).act_nearest hleast
  missing i name hmissing := act_missing hmissing
  define i hi name value := ⟨rfl, rebinds_define hi name value⟩
  writes a name value hwritten := act_written hwritten
  raises a hraises := act_raises hraises

/-- Two frames in one, and one in the first of these: what the second binds is not what the innermost sees,
and an assignment there is seen from both. -/
theorem lawful_run_shared :
    let f : Forest Nat := initial.run
      [.push 0, .push 0, .push 1, .define 0 "x" 1, .define 2 "x" 2, .define 1 "y" 3]
    IsLeast {d | f.Binds 3 "x" d} 2
      ∧ (∃ next, f.Rebinds 0 "x" 4 next ∧ f.act (.assign 3 "x" 4) = (.nothing, next)
        ∧ f.act (.assignAt 3 2 "x" 4) = (.nothing, next))
      ∧ (f.act (.assign 3 "x" 4)).2.act (.get 1 "x") = (.value 4, (f.act (.assign 3 "x" 4)).2)
      ∧ f.act (.get 3 "z") = (.undefined "z", f) := by
  intro f
  have hleast : IsLeast {d | f.Binds 3 "x" d} 2 := by
    refine ⟨⟨0, rfl, rfl⟩, ?_⟩
    rintro d ⟨j, hout, hbound⟩
    match d with
    | 0 | 1 => cases hout; cases hbound
    | d + 2 => omega
  obtain ⟨j, hout, -, hassign⟩ := (lawful_run _ : f.Lawful).nearest 3 "x" 2 hleast
  cases hout
  refine ⟨hleast, hassign 4, rfl, ?_⟩
  refine ((lawful_run _ : f.Lawful).missing 3 "z" ?_).1
  rintro d ⟨j, hout, hbound⟩
  match d with
  | 0 | 1 | 2 => cases hout; cases hbound
  | d + 3 => cases d <;> cases hout

end Forest

end KScript

import KScript.Env
import Mathlib.Tactic.Common

/-!
# Lookups in frames

What binding a name does to each frame, and where the two ways to a variable meet: the walk outwards in
search of a name (`Frames.get?`, `Frames.assign?`) stops at the first frame in sight that binds it
(`Frames.First`), which is the frame that the lookup by distance goes to.
-/

namespace KScript

/-- What holds of an empty table and is kept by binding the entries holds of the table made of them. -/
lemma Table.ofList_induction {α : Type} {P : Table α → Prop} {entries : List (String × α)}
    (hempty : P Table.empty) (hinsert : ∀ t, P t → ∀ e ∈ entries, P (t.insert e.1 e.2)) :
    P (Table.ofList entries) :=
  List.foldlRecOn entries _ hempty hinsert

namespace Frames

variable {α : Type} {frames next : Frames α} {env : Env} {name : String}

/-! ## Single frames -/

lemma frame_push (frames : Frames α) (bindings : Table α) (address : Address) :
    frame (frames.push bindings) address
      = if address = frames.size then bindings else frames.frame address := by
  unfold frame
  rw [Array.getElem?_push]
  split <;> rfl

lemma frame_define (frames : Frames α) (target address : Address) (name : String) (value : α) :
    (frames.define target name value).frame address
      = if target = address ∧ address < frames.size then (frames.frame address).insert name value
        else frames.frame address := by
  unfold frame define
  rw [Array.getElem?_modify]
  by_cases htarget : target = address
  · by_cases hlt : address < frames.size
    · simp [htarget, hlt]
    · simp [htarget, hlt]
  · simp [htarget]

@[simp] lemma size_define (frames : Frames α) (target : Address) (name : String) (value : α) :
    (frames.define target name value).size = frames.size := by
  simp [define]

lemma getAt_eq_ok {depth : Nat} {address : Address} {value : α} (haddress : env[depth]? = some address)
    (hvalue : (frames.frame address).find? name = some value) : frames.getAt env depth name = .ok value := by
  simp [getAt, haddress, hvalue]

/-- Rebinding a name binds it in one of the frames in sight. -/
lemma assign?_eq_some {value : α} (h : frames.assign? env name value = some next) :
    ∃ address ∈ env, next = frames.define address name value := by
  induction env with
  | nil => cases h
  | cons address outer ih =>
      unfold assign? at h
      split at h
      · cases h
        exact ⟨address, List.mem_cons_self, rfl⟩
      · obtain ⟨target, htarget, rfl⟩ := ih h
        exact ⟨target, List.mem_cons_of_mem _ htarget, rfl⟩

/-! ## The first frame that binds a name -/

/-- The frame `depth` steps out is the first in sight that binds the name. -/
structure First (frames : Frames α) (env : Env) (name : String) (depth : Nat) (address : Address) :
    Prop where
  out : env[depth]? = some address
  binds : (frames.frame address).contains name = true
  nearer : ∀ d < depth, ∀ inner, env[d]? = some inner → (frames.frame inner).contains name = false

namespace First

variable {depth : Nat} {address inner : Address}

lemma head (h : frames.First (inner :: env) name 0 address) : address = inner := by
  simpa using h.out.symm

/-- The walk goes on past a frame that does not bind the name. -/
lemma tail (h : frames.First (inner :: env) name (depth + 1) address) :
    (frames.frame inner).contains name = false ∧ frames.First env name depth address := by
  refine ⟨h.nearer 0 (Nat.succ_pos _) inner rfl, by simpa using h.out, h.binds, ?_⟩
  intro d hd outer houter
  exact h.nearer (d + 1) (Nat.succ_lt_succ hd) outer (by simpa using houter)

lemma get? {value : α} (h : frames.First env name depth address)
    (hvalue : (frames.frame address).find? name = some value) : frames.get? env name = some value := by
  induction env generalizing depth with
  | nil => cases h.out
  | cons inner outer ih =>
      unfold Frames.get?
      cases depth with
      | zero =>
          obtain rfl := h.head
          rw [hvalue]
      | succ depth =>
          obtain ⟨hmiss, hrest⟩ := h.tail
          rw [Table.contains, Option.isSome_eq_false_iff, Option.isNone_iff_eq_none] at hmiss
          rw [hmiss]
          exact ih hrest

lemma assign? (h : frames.First env name depth address) (value : α) :
    frames.assign? env name value = some (frames.define address name value) := by
  induction env generalizing depth with
  | nil => cases h.out
  | cons inner outer ih =>
      unfold Frames.assign?
      cases depth with
      | zero =>
          obtain rfl := h.head
          rw [if_pos h.binds]
      | succ depth =>
          obtain ⟨hmiss, hrest⟩ := h.tail
          rw [hmiss, if_neg Bool.false_ne_true]
          exact ih hrest

lemma getAt {value : α} (h : frames.First env name depth address)
    (hvalue : (frames.frame address).find? name = some value) : frames.getAt env depth name = .ok value :=
  getAt_eq_ok h.out hvalue

lemma assignAt (h : frames.First env name depth address) (value : α) :
    frames.assignAt env depth name value = .ok (frames.define address name value) := by
  simp [Frames.assignAt, h.out]

end First

/-- Without such a frame, the walk comes to the end of the chain. -/
lemma get?_eq_none (h : ∀ address ∈ env, (frames.frame address).contains name = false) :
    frames.get? env name = none := by
  induction env with
  | nil => rfl
  | cons address outer ih =>
      have hmiss := h address List.mem_cons_self
      rw [Table.contains, Option.isSome_eq_false_iff, Option.isNone_iff_eq_none] at hmiss
      unfold Frames.get?
      rw [hmiss]
      exact ih fun outermost hmem => h outermost (List.mem_cons_of_mem _ hmem)

lemma assign?_eq_none (h : ∀ address ∈ env, (frames.frame address).contains name = false) (value : α) :
    frames.assign? env name value = none := by
  induction env with
  | nil => rfl
  | cons address outer ih =>
      unfold Frames.assign?
      rw [h address List.mem_cons_self, if_neg Bool.false_ne_true]
      exact ih fun outermost hmem => h outermost (List.mem_cons_of_mem _ hmem)

end Frames

end KScript

import KScript.Proofs.Session.Traces
import KScript.Proofs.Walk.Sessions
import Mathlib

/-!
# Receivers

Where `this` has a receiver.  The rules accept a `this` if a class is around it and the nearest body is not
static; it is bound if some routine around it has a receiver.  The two part in one kind of place: a
subroutine inside a static method (`Session.Stands.stray`).  So a script can fail for want of `this`, but
only at such a place (`Session.Reached.exists_stray`).
-/

namespace KScript

open Scope

/-- Of the references that settled phrases evaluate, only those of `this` have its name. -/
lemma Phrase.Settled.eq_receiver {around : List Construct} {p : Phrase Depth} {line : Nat}
    (h : p.Settled around) (hlacks : p.Lacks line thisName) :
    ∃ ref, p = .expr (.receiver ref) ∧ ref.Lacks line thisName := by
  cases h with
  | @expr c e _ h hresolve =>
      subst hresolve
      obtain ⟨site, ref, href, hlacks⟩ := hlacks
      have hproper := h.proper
      cases e with
      | receiver ref' =>
          cases href
          exact ⟨_, rfl, hlacks⟩
      | «variable» ref' =>
          cases href
          exact absurd hlacks.2.2 hproper.1
      | assign ref' value =>
          cases href
          exact absurd hlacks.2.2 hproper.1.1
      | step direction ref' =>
          cases href
          exact absurd hlacks.2.2 hproper.1
      | inherited ref' method =>
          cases href
          exact absurd (hproper.symm.trans hlacks.2.2) (by decide)
      | _ => cases href
  | @stmt c s _ h hresolve =>
      subst hresolve
      have hproper := h.proper
      cases s with
      | step direction ref' =>
          obtain ⟨site, ref, href, hlacks⟩ := hlacks
          cases href
          exact absurd hlacks.2.2 hproper.1
      | classDecl name superclass methods statics getters setters => exact absurd hlacks.2 hproper.1.1
      | _ =>
          obtain ⟨site, ref, href, hlacks⟩ := hlacks
          cases href
  | made _ hs =>
      rcases hs with rfl | rfl <;>
      · obtain ⟨site, ref, href, -⟩ := hlacks
        cases href

/-- The variable for want of which a script failed, if it did. -/
def Outcome.missingName? : Outcome → Option String
  | .failed _ (.undefinedVariable name) _ => some name
  | _ => none

lemma Outcome.eq_of_missingName? {o : Outcome} {name : String} (h : o.missingName? = some name) :
    ∃ line calls, o = .failed line (.undefinedVariable name) calls := by
  unfold Outcome.missingName? at h
  split at h
  · cases h
    exact ⟨_, _, rfl⟩
  · cases h

namespace Session

variable {sources : List String} {around : List Construct} {ref : Reference Depth}

/-- A `this` without a receiver stands in a subroutine that is inside a static method. -/
lemma Stands.stray (h : Stands sources around (.expr (.receiver ref))) (hbound : ref.bound = none) :
    (∃ name, around.find? Construct.isBody = some (.routine .subroutine name))
      ∧ ∃ k ∈ around, k.isStatic = true := by
  obtain ⟨hreceiver, ⟨k, hk, hclass⟩, hnearest⟩ := h.settled.receiver
  have hnone := hreceiver.mp hbound
  obtain ⟨_, _, _, _, hat⟩ := h
  obtain ⟨k', hk', hmember⟩ := hat.exists_member (List.any_eq_true.mpr ⟨k, hk, hclass⟩)
  have hstatic : k'.isStatic = true := hmember.resolve_left (by simp [hnone k' hk'])
  refine ⟨?_, k', hk', hstatic⟩
  cases hfind : around.find? Construct.isBody with
  | none =>
      have hbody := List.find?_eq_none.mp hfind k' hk'
      cases k' with
      | routine _ _ => exact absurd rfl hbody
      | _ => cases hstatic
  | some body =>
      have hnot := hnearest body hfind
      have hlacks := hnone body (List.mem_of_find?_eq_some hfind)
      cases body with
      | routine role name =>
          cases role with
          | subroutine => exact ⟨name, rfl⟩
          | staticMethod => cases hnot
          | _ => cases hlacks
      | _ => cases List.find?_some hfind

/-- A failure for want of `this` is that of a `this` without a receiver that the run has reached. -/
lemma Reached.exists_stray {s : Session} (hs : Reached sources s) {source : String} {echo : Bool} {line : Nat}
    {calls : List CallRecord}
    (h : (s.runScript source echo).1.outcome = .failed line (.undefinedVariable thisName) calls) :
    ∃ around ref, Stands (source :: sources) around (.expr (.receiver ref)) ∧ ref.bound = none
      ∧ ref.name.line = line
      ∧ .reached (.expr (.receiver ref))
          ∈ (Walk.runScript ⟨Machine.globalEnv, s.machine, []⟩ (source, echo)).2.past := by
  obtain ⟨new, went, hmissed⟩ := hs.walk source echo
  obtain ⟨p, hp, hlacks⟩ :=
    hmissed line thisName calls ((s.walk_runScript [] (source, echo)).1.trans h)
  obtain ⟨around, hstands⟩ : ∃ around, Stands (source :: sources) around p := went.code _ hp
  obtain ⟨ref, rfl, hbound, hline, -⟩ := hstands.settled.eq_receiver hlacks
  refine ⟨around, ref, hstands, hbound, hline, ?_⟩
  rw [went.past]
  exact List.mem_append_left _ hp

/-- **Where `this` has a receiver.**  Whatever scripts a session has run, and whatever script it runs next:

- a `this` of an accepted script is bound exactly if a method, a get method or a set method is around it;
- if it is not bound, the nearest body around it is a subroutine, and a static method is around that;
- a run that fails for want of `this` has reached such an unbound one, on the line of the failure. -/
theorem receivers_bound {s : Session} (hs : Reached sources s) (source : String) (echo : Bool) :
    (∀ around ref, Stands (source :: sources) around (.expr (.receiver ref)) →
        ((∃ d, ref.bound = some d) ↔ ∃ k ∈ around, k.hasReceiver = true)
          ∧ (ref.bound = none →
              (∃ name, around.find? Construct.isBody = some (.routine .subroutine name))
                ∧ ∃ k ∈ around, k.isStatic = true))
      ∧ ∀ line calls,
          (s.runScript source echo).1.outcome = .failed line (.undefinedVariable thisName) calls →
          ∃ around ref, Stands (source :: sources) around (.expr (.receiver ref)) ∧ ref.bound = none
            ∧ ref.name.line = line
            ∧ .reached (.expr (.receiver ref))
                ∈ (Walk.runScript ⟨Machine.globalEnv, s.machine, []⟩ (source, echo)).2.past := by
  refine ⟨fun around ref hstands => ⟨?_, hstands.stray⟩, fun line calls h => hs.exists_stray h⟩
  rw [← Option.isSome_iff_exists, ← Option.ne_none_iff_isSome, Ne, hstands.settled.receiver.1]
  simp

/-- `this` in a subroutine of a method. -/
def ownedScript : String := "class B \x7b m() \x7b sub g() \x7b this; \x7d \x7d \x7d"

/-- The `this` of that script. -/
def ownedReference : Reference Depth := ⟨⟨.thisWord, thisName, none, 1⟩, some 2⟩

/-- What is around it. -/
def ownedAround : List Construct :=
  [.routine .subroutine (word "g"), .routine .method (word "m"), .classDecl false]

lemma prepare_ownedScript :
    prepare ownedScript
      = ([], [.classDecl (word "B") none
          [⟨word "m", [], [.routine ⟨word "g", [], [.expr (.receiver ownedReference)]⟩]⟩] [] [] []]) := by
  cbv

lemma stands_ownedReference {sources : List String} (h : ownedScript ∈ sources) :
    Stands sources ownedAround (.expr (.receiver ownedReference)) := by
  have hmethod := (Stands.top h prepare_ownedScript List.mem_cons_self).part List.mem_cons_self
  have hroutine := hmethod.part List.mem_cons_self
  exact hroutine.part List.mem_cons_self

/-- `this` in a subroutine of a static method. -/
def strayScript : String :=
  "class A \x7b static s() \x7b sub f() \x7b return this; \x7d return f(); \x7d \x7d A.s();"

theorem receivers_bound_strayScript :
    let s := ((Session.new true false "" 0).runScript ownedScript false).2
    Reached [ownedScript] s
      ∧ Stands [strayScript, ownedScript] ownedAround (.expr (.receiver ownedReference))
      ∧ (∃ k ∈ ownedAround, k.hasReceiver = true)
      ∧ (s.runScript strayScript false).1.outcome.missingName? = some thisName
      ∧ ∃ around ref, Stands [strayScript, ownedScript] around (.expr (.receiver ref)) ∧ ref.bound = none
          ∧ (∃ name, around.find? Construct.isBody = some (.routine .subroutine name))
          ∧ ∃ k ∈ around, k.isStatic = true := by
  intro s
  have hs : Reached [ownedScript] s := .run (.new true false "" 0) ownedScript false
  have howned : Stands [strayScript, ownedScript] ownedAround (.expr (.receiver ownedReference)) :=
    stands_ownedReference (by simp)
  have hmissing : (s.runScript strayScript false).1.outcome.missingName? = some thisName := by
    decide +kernel
  obtain ⟨line, calls, hfailed⟩ := Outcome.eq_of_missingName? hmissing
  obtain ⟨hplaces, hfailure⟩ := receivers_bound hs strayScript false
  obtain ⟨around, ref, hstands, hbound, -⟩ := hfailure line calls hfailed
  exact ⟨hs, howned, (hplaces _ _ howned).1.mp ⟨2, rfl⟩, hmissing, around, ref, hstands, hbound,
    (hplaces around ref hstands).2 hbound⟩

/-- The script is accepted, but its `this` is not bound, and the run fails for want of it. -/
theorem receiver_unbound_strayScript :
    (prepare strayScript).1 = []
      ∧ ((Session.new true false "" 0).runScript strayScript false).1.outcome.missingName? = some thisName
      ∧ ∃ around ref, Stands [strayScript] around (.expr (.receiver ref)) ∧ ref.bound = none := by
  have hs : Reached [] (Session.new true false "" 0) := .new true false "" 0
  have hmissing : ((Session.new true false "" 0).runScript strayScript false).1.outcome.missingName?
      = some thisName := by decide +kernel
  obtain ⟨line, calls, hfailed⟩ := Outcome.eq_of_missingName? hmissing
  obtain ⟨around, ref, hstands, hbound, -⟩ := hs.exists_stray hfailed
  exact ⟨by decide +kernel, hmissing, around, ref, hstands, hbound⟩

end Session

end KScript

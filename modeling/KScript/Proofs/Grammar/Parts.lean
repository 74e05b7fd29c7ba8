import KScript.Syntax
import Mathlib.Tactic.Common

/-!
# The statements and routines of a program

Every statement that stands anywhere in a program, and every routine that is declared anywhere in it.
-/

namespace KScript

variable {β : Type}

mutual

/-- The statements inside a statement, at any depth. -/
def Stmt.inside : Stmt β → List (Stmt β)
  | .block body => Stmt.parts body
  | .branch _ yes no => yes :: yes.inside ++ Stmt.partsOption no
  | .loop _ body => body :: body.inside
  | .forLoop _ _ _ body => body :: body.inside
  | .routine ⟨_, _, body⟩ => Stmt.parts body
  | .classDecl _ _ methods statics getters setters =>
    Stmt.partsRoutines methods ++ Stmt.partsRoutines statics ++ Stmt.partsRoutines getters
      ++ Stmt.partsRoutines setters
  | _ => []

/-- Listed statements with those inside them. -/
def Stmt.parts : List (Stmt β) → List (Stmt β)
  | [] => []
  | s :: rest => s :: s.inside ++ Stmt.parts rest

/-- The statement of a branch that may be left out, with those inside it. -/
def Stmt.partsOption : Option (Stmt β) → List (Stmt β)
  | none => []
  | some s => s :: s.inside

/-- The statements in the bodies of routines. -/
def Stmt.partsRoutines : List (Routine (Stmt β)) → List (Stmt β)
  | [] => []
  | ⟨_, _, body⟩ :: rest => Stmt.parts body ++ Stmt.partsRoutines rest

end

/-- Every statement of a program. -/
def Program.statements (program : Program β) : List (Stmt β) := Stmt.parts program

/-- The routines that a statement itself declares. -/
def Stmt.ownRoutines : Stmt β → List (Routine (Stmt β))
  | .routine decl => [decl]
  | .classDecl _ _ methods statics getters setters => methods ++ statics ++ getters ++ setters
  | _ => []

/-- Every routine of a program. -/
def Program.routines (program : Program β) : List (Routine (Stmt β)) :=
  program.statements.flatMap Stmt.ownRoutines

/-! ## Properties that go down -/

/-- A property that holds of the statements in a statement if it holds of the statement. -/
structure Stmt.Hereditary (P : Stmt β → Prop) : Prop where
  block : ∀ {body}, P (.block body) → ∀ s ∈ body, P s
  branch : ∀ {condition yes no}, P (.branch condition yes no) → P yes ∧ ∀ s ∈ no, P s
  loop : ∀ {condition body}, P (.loop condition body) → P body
  forLoop : ∀ {start condition after body}, P (.forLoop start condition after body) → P body
  routines : ∀ {s}, P s → ∀ r ∈ s.ownRoutines, ∀ t ∈ r.body, P t

namespace Stmt.Hereditary

variable {P : Stmt β → Prop}

mutual

theorem inside (h : Hereditary P) : ∀ {s : Stmt β}, P s → ∀ t ∈ s.inside, P t
  | .block body, hs => h.parts (h.block hs)
  | .branch _ yes no, hs => by
      have hbranch := h.branch hs
      refine List.forall_mem_append.mpr ⟨List.forall_mem_cons.mpr ⟨hbranch.1, ?_⟩, ?_⟩
      · exact h.inside hbranch.1
      · exact h.partsOption hbranch.2
  | .loop _ body, hs => List.forall_mem_cons.mpr ⟨h.loop hs, h.inside (h.loop hs)⟩
  | .forLoop _ _ _ body, hs => List.forall_mem_cons.mpr ⟨h.forLoop hs, h.inside (h.forLoop hs)⟩
  | .routine ⟨_, _, body⟩, hs => h.parts (h.routines hs _ List.mem_cons_self)
  | .classDecl _ _ methods statics getters setters, hs => by
      have hall := h.routines hs
      simp only [ownRoutines, List.forall_mem_append] at hall
      obtain ⟨⟨⟨hm, hs⟩, hg⟩, ht⟩ := hall
      simp only [Stmt.inside, List.forall_mem_append]
      exact ⟨⟨⟨h.partsRoutines hm, h.partsRoutines hs⟩, h.partsRoutines hg⟩, h.partsRoutines ht⟩
  | .expr _, _ | .echo _, _ | .var _ _, _ | .exit _ _, _ | .step _ _, _ | .jump _ _, _
  | .giveBack _ _, _ => nofun

theorem parts (h : Hereditary P) : ∀ {ss : List (Stmt β)}, (∀ s ∈ ss, P s) →
    ∀ t ∈ Stmt.parts ss, P t
  | [], _ => nofun
  | s :: rest, hss => by
      obtain ⟨hs, hrest⟩ := List.forall_mem_cons.mp hss
      refine List.forall_mem_append.mpr ⟨List.forall_mem_cons.mpr ⟨hs, ?_⟩, ?_⟩
      · exact h.inside hs
      · exact h.parts hrest

theorem partsOption (h : Hereditary P) : ∀ {s : Option (Stmt β)}, (∀ t ∈ s, P t) →
    ∀ t ∈ Stmt.partsOption s, P t
  | none, _ => nofun
  | some s, hs => List.forall_mem_cons.mpr ⟨hs s rfl, h.inside (hs s rfl)⟩

theorem partsRoutines (h : Hereditary P) : ∀ {rs : List (Routine (Stmt β))},
    (∀ r ∈ rs, ∀ t ∈ r.body, P t) → ∀ t ∈ Stmt.partsRoutines rs, P t
  | [], _ => nofun
  | ⟨_, _, body⟩ :: rest, hrs => by
      obtain ⟨hbody, hrest⟩ := List.forall_mem_cons.mp hrs
      exact List.forall_mem_append.mpr ⟨h.parts hbody, h.partsRoutines hrest⟩

end

/-- **What holds of the statements of a program and goes down holds of all statements in it.** -/
theorem statements (h : Hereditary P) {program : Program β} (hp : ∀ s ∈ program, P s) :
    ∀ s ∈ program.statements, P s := h.parts hp

end Stmt.Hereditary

end KScript

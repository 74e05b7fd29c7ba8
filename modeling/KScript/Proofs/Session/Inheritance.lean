import KScript.Proofs.Lineage.Evaluation
import KScript.Proofs.Session.Properties

/-!
# Inheritance in every session

What is recorded about class declarations, put together for whole sessions: classes never change, their
lineages are finite, and `super` leads where the execution of the declaration around it said, with the
receiver of the method around it.
-/

namespace KScript

open Scope

/-! ## Classes on a machine -/

/-- The class is in sight in the value. -/
inductive Value.Shows : Value → ClassValue → Prop where
  | item {ident : Nat} {items : List Value} {v : Value} {cls : ClassValue} (hv : v ∈ items)
      (h : Shows v cls) : Shows (.array ident items) cls
  | classValue (cls : ClassValue) : Shows (.classValue cls) cls
  | object (object : Object) : Shows (.object object) object.cls

/-- The class is in sight on the machine: in a frame, or in a field of an object. -/
def Machine.Shows (m : Machine) (cls : ClassValue) : Prop :=
  ∃ cell name v, (m.contents cell).find? name = some v ∧ v.Shows cls

variable {sources : List String} {known : List Declared} {m : Machine}

lemma Value.Linked.shows {w : World} {v : Value} {cls : ClassValue} (h : v.Linked sources w)
    (hshows : v.Shows cls) : cls.Known w := by
  induction hshows with
  | item hv _ ih =>
      cases h with
      | array h => exact ih (h _ hv)
  | classValue cls =>
      cases h with
      | classValue h => exact h
  | object object =>
      cases h with
      | object h => exact h

lemma Machine.Knows.shows {cls : ClassValue} (hm : m.Knows sources known) (h : m.Shows cls) :
    ∃ made ∈ known, made.cls = cls := by
  obtain ⟨cell, name, v, hv, hshows⟩ := h
  exact (hm.linked cell name v hv).shows hshows

/-! ## Watching for what is recorded -/

/-- All classes in sight are recorded, and a `super` leads where the record says. -/
structure Moment.Lawful (sources : List String) (known : List Declared) (x : Moment) : Prop where
  classes : ∀ cls, x.machine.Shows cls → ∃ made ∈ known, made.cls = cls
  inherits : x.site = .inherited → x.Inherits sources known

namespace Watch

/-- Stops where a moment is not lawful. -/
noncomputable def lawful (sources : List String) (all : List Declared × Signal) : Watch :=
  stopAt (fun x => ¬x.Lawful sources all.1) all.2

lemma lawful_before {all : List Declared × Signal} (hall : known <:+ all.1)
    (hm : m.Knows sources known) {env : Env} {reference : Option (Site × Reference Depth)}
    (hinherits : ∀ ref, reference = some (.inherited, ref) →
      Moment.Inherits sources known ⟨.inherited, ref, env, m⟩) :
    (lawful sources all).before env reference m = .ok () m := by
  rcases reference with _ | ⟨site, ref⟩
  · rfl
  · have hlawful : Moment.Lawful sources all.1 ⟨site, ref, env, m⟩ := by
      refine ⟨fun cls hcls => ?_, fun hsite => ?_⟩
      · exact (hm.shows hcls).imp fun _ hmade => ⟨hall.subset hmade.1, hmade.2⟩
      · obtain rfl : site = .inherited := hsite
        exact (hinherits ref rfl).mono hall
    have hnone : lawful sources all ⟨site, ref, env, m⟩ = none := by
      rw [lawful, stopAt, if_neg (not_not_intro hlawful)]
    rw [before, Run.get_bind_apply]
    simp only [hnone]
    rfl

/-- **At every level the watched evaluators keep together with the plain one.** -/
theorem recording (sources : List String) : ∀ fuel, Recording sources
    (fun all => ⟨fuel, (lawful sources all).evalAt fuel, (lawful sources all).execAt fuel⟩)
    (interpAt fuel)
  | 0 =>
    { plain := rfl
      fuel := fun _ => rfl
      eval := fun hm _ => .throw hm .exhausted
      exec := fun hm _ => .throw hm .exhausted }
  | fuel + 1 =>
    { plain := rfl
      fuel := fun _ => rfl
      eval := fun {known m around env e} hm hruns => by
        refine .watched (fun all hall => lawful_before hall hm fun ref href => ?_)
          ((recording sources fuel).evalStep hm hruns)
        cases e with
        | inherited ref method =>
            cases href
            exact hm.inherits hruns
        | _ => cases href
      exec := fun {known m around env s} hm hruns => by
        refine .watched (fun all hall => lawful_before hall hm fun ref href => ?_)
          ((recording sources fuel).execStep hm hruns)
        cases s <;> cases href }

/-- A whole program runs alike under the watch and without it. -/
theorem run_recorded (fuel : Nat) : ∀ {program : Program Depth} {known : List Declared}
    {m : Machine}, (∀ s ∈ program, Session.Stands sources [] (.stmt s)) → m.Knows sources known →
    Recorded sources known m (fun all => (lawful sources all).run fuel program)
      (Program.run fuel program) fun _ _ => True := by
  intro program
  induction program with
  | nil => exact fun _ hm => .pure hm trivial
  | cons s rest ih =>
      intro known m hprogram hm
      have ⟨hs, hrest⟩ := List.forall_mem_cons.mp hprogram
      exact .bind ((recording sources fuel).exec hm (.top hs)) fun _ _ _ hnext _ _ => ih hrest hnext

end Watch

namespace Session

/-! ## Reached sessions -/

/-- A new machine holds nothing but native routines. -/
lemma knows_newMachine (natives tracing : Bool) (input : String) (clock : Float) :
    (newMachine natives tracing input clock).Knows sources [] := by
  have htable (w : World) : (if natives then Native.table else Table.empty).All (Value.Linked sources w) := by
    split
    · refine .ofList fun entry hentry => ?_
      obtain ⟨n, -, rfl⟩ := List.mem_map.mp hentry
      exact .native n
    · exact .empty
  refine ⟨trivial, by simp, by simp, ?_⟩
  rintro (address | ident)
  · cases address with
    | zero => exact htable _
    | succ address => exact .empty
  · exact .empty

/-- What is run for an accepted script stands in it. -/
lemma stands_echoed {source : String} (haccepted : (prepare source).1 = []) (echo : Bool) :
    ∀ s ∈ echoed echo (prepare source).2, Stands (source :: sources) [] (.stmt s) :=
  fun _ hs => ⟨source, List.mem_cons_self, haccepted, echo, .top hs⟩

/-- The run of an accepted script, watched for what is recorded until its end. -/
lemma run_knows {s : Session} {source : String} (haccepted : (prepare source).1 = []) (echo : Bool)
    (hs : s.machine.Knows (source :: sources) known) (n : Nat) :
    let program := echoed echo (prepare source).2
    ∃ later, known <:+ later ∧ Declared.Orderly later
      ∧ (n = fuel → (s.runScript source echo).2.machine.Knows (source :: sources) later)
      ∧ ∀ signal, (Watch.stopAt (fun x => ¬x.Lawful (source :: sources) later) signal).run n program
          (ready s.machine) = Program.run n program (ready s.machine) := by
  intro program
  have hready : (ready s.machine).Knows (source :: sources) known := hs.congr rfl rfl (Nat.le_refl _)
  obtain ⟨later, hsame, hends⟩ := Watch.run_recorded n (stands_echoed haccepted echo) hready
  have hpair : prepare source = ([], (prepare source).2) := by rw [← haccepted]
  have hmachine : (s.runScript source echo).2.machine = (runProgram s.machine program).2 := by
    unfold runScript
    rw [hpair]
    rfl
  have hsignal (signal : Signal) := hsame (later, signal) List.suffix_rfl
  rw [hmachine, runProgram]
  cases hrun : Program.run n program (ready s.machine) with
  | ok _ next =>
      rw [hrun] at hends
      refine ⟨later, hends.2.1.older, hends.1.orderly, ?_, fun signal => (hsignal signal).trans hrun⟩
      rintro rfl
      rw [hrun]
      exact hends.1
  | error signal next =>
      rw [hrun] at hends
      refine ⟨later, hends.2.older, hends.1.orderly, ?_, fun signal => (hsignal signal).trans hrun⟩
      rintro rfl
      rw [hrun]
      exact hends.1

/-- **The machine of a reached session knows the classes that were declared.** -/
theorem Reached.knows {s : Session} (h : Reached sources s) : ∃ known, s.machine.Knows sources known := by
  induction h with
  | new natives tracing input clock => exact ⟨[], knows_newMachine natives tracing input clock⟩
  | @run sources s _ source echo ih =>
      obtain ⟨known, hknown⟩ := ih
      by_cases haccepted : (prepare source).1 = []
      · obtain ⟨later, -, -, hlater, -⟩ := run_knows haccepted echo hknown.more fuel
        exact ⟨later, hlater rfl⟩
      · refine ⟨known, ?_⟩
        have hsame : (s.runScript source echo).2.machine = s.machine := by
          unfold runScript
          split
          · next hprepare => exact absurd (by rw [hprepare]) haccepted
          · rfl
        rw [hsame]
        exact hknown.more

/-- Three classes, each with a method that adds to the one that it overrides. -/
def lineScript : String :=
  "class A \x7b m() \x7b return \"a\"; \x7d \x7d "
    ++ "class B <- A \x7b m() \x7b sub up() \x7b return super.m(); \x7d return up() + \"b\"; \x7d \x7d "
    ++ "class C <- B \x7b m() \x7b return super.m() + \"c\"; \x7d \x7d"

/-- The names of the superclasses stand for something else when the methods are called. -/
def reboundScript : String := "A = C; B = C; print(C().m());"

end Session

end KScript

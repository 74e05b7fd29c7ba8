import KScript.Proofs.Blame.Guards
import KScript.Proofs.Session.Inheritance

/-!
# What holds throughout a session

A property of the moments at which phrases are begun holds throughout a session if it holds wherever a phrase
of its scripts is run on a machine that knows what was declared (`Session.Reached.always`): a guard that
would stop where it fails to hold is kept together with the plain evaluator.
-/

namespace KScript

open Guard (stopAt)

variable {sources : List String} {known : List Declared} {m : Machine} {P : Begun → Prop}

/-- The property holds wherever a phrase of the scripts is run. -/
def Begun.Lasting (sources : List String) (P : Begun → Prop) : Prop :=
  ∀ {known : List Declared} {m : Machine} {around : List Construct} {env : Env} {p : Phrase Depth}
    (level : Nat), m.Knows sources known → (m.world known).Runs sources around env p → P ⟨level, env, p, m⟩

namespace Begun.Lasting

lemma before (h : Lasting sources P) {around : List Construct} {env : Env} {p : Phrase Depth}
    (hm : m.Knows sources known) (hruns : (m.world known).Runs sources around env p) (signal : Signal)
    (level : Nat) : (stopAt (fun x => ¬P x) signal).before level env p m = .ok () m := by
  have hnone : stopAt (fun x => ¬P x) signal ⟨level, env, p, m⟩ = none :=
    Guard.stopAt_of_not (not_not_intro (h level hm hruns))
  rw [Guard.before, Run.get_bind_apply]
  simp only [hnone]
  rfl

/-- At every level the guarded evaluators keep together with the plain one. -/
lemma recording (h : Lasting sources P) : ∀ fuel, Recording sources
    (fun all => (stopAt (fun x => ¬P x) all.2).interpAt fuel) (interpAt fuel)
  | 0 =>
    { plain := rfl
      fuel := fun _ => rfl
      eval := fun hm _ => .throw hm .exhausted
      exec := fun hm _ => .throw hm .exhausted }
  | fuel + 1 =>
    { plain := rfl
      fuel := fun _ => rfl
      eval := fun hm hruns => .watched (fun all _ => h.before hm hruns all.2 fuel)
        ((recording h fuel).evalStep hm hruns)
      exec := fun hm hruns => .watched (fun all _ => h.before hm hruns all.2 fuel)
        ((recording h fuel).execStep hm hruns) }

/-- A whole program runs alike under the guard and without it. -/
lemma run_recorded (h : Lasting sources P) (fuel : Nat) {program : Program Depth}
    (hprogram : ∀ s ∈ program, Session.Stands sources [] (.stmt s)) (hm : m.Knows sources known) :
    Recorded sources known m (fun all => (stopAt (fun x => ¬P x) all.2).run fuel program)
      (Program.run fuel program) fun _ _ => True := by
  rw [Program.run_eq]
  induction program generalizing known m with
  | nil => exact .pure hm trivial
  | cons s rest ih =>
      have ⟨hs, hrest⟩ := List.forall_mem_cons.mp hprogram
      exact .bind ((h.recording fuel).exec hm (.top hs)) fun _ _ _ hnext _ _ => ih hrest hnext

end Begun.Lasting

/-- **A lasting property holds at all phrases that a session begins.** -/
theorem Session.Reached.always {s : Session} (hs : Reached sources s) {source : String}
    (h : Begun.Lasting (source :: sources) P) (haccepted : (prepare source).1 = []) (echo : Bool) (n : Nat) :
    Program.Always P n (echoed echo (prepare source).2) (ready s.machine) := by
  intro signal
  obtain ⟨known, hknown⟩ := hs.knows
  have hready : (ready s.machine).Knows (source :: sources) known :=
    hknown.more.congr rfl rfl (Nat.le_refl _)
  obtain ⟨later, hsame, -⟩ := h.run_recorded n (stands_echoed haccepted echo) hready
  exact hsame (later, signal) List.suffix_rfl

end KScript

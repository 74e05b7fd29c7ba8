import KScript.Proofs.Reach.Evaluation

/-!
# Evaluators that stop early

Of two runs, one may be cut short by a signal where the other goes on; up to there they do the same
(`Run.Shorter`).  This passes from the parts of a phrase to the phrase (`Interp.Shorter.evalStep`,
`Interp.Shorter.execStep`), since it is what the policy `Policy.free` says.
-/

namespace KScript

variable {S : Signal → Prop} {α β : Type} {i j : Interp}

/-- The run `x` does what `y` does, unless a signal of the kind cuts it short. -/
def Run.Shorter (S : Signal → Prop) (x y : Run α) : Prop :=
  ∀ m, x m = y m ∨ ∃ signal m', S signal ∧ x m = .error signal m'

namespace Run.Shorter

variable {x y : Run α}

lemma refl (x : Run α) : Shorter S x x := fun _ => .inl rfl

/-- A result of the first run is the result of the second. -/
lemma eq_ok {a : α} {m next : Machine} (h : Shorter S x y) (hx : x m = .ok a next) : y m = .ok a next := by
  rcases h m with heq | ⟨signal, m', -, hcut⟩
  · exact heq ▸ hx
  · cases hcut.symm.trans hx

/-- The runs do the same up to being cut short if they follow the policy that allows everything else. -/
lemma iff_obeys {Q : α → Prop} (hQ : ∀ a, Q a) : Shorter S x y ↔ (Policy.free S).Obeys x y Q := by
  constructor
  · intro h m _
    refine (h m).symm.imp_right fun heq => ⟨heq, ?_⟩
    cases y m with
    | ok a n => exact ⟨trivial, trivial, hQ a⟩
    | error s n => exact trivial
  · intro h m
    exact (h m trivial).symm.imp_left And.left

/-- One computation after the other. -/
lemma bind {f g : α → Run β} (h : Shorter S x y) (hrest : ∀ a, Shorter S (f a) (g a)) :
    Shorter S (x >>= f) (y >>= g) := by
  have hQ : ∀ _ : β, True := fun _ => trivial
  refine (iff_obeys hQ).mpr (.bind ((iff_obeys fun _ => trivial).mp h) fun a _ => ?_)
  exact (iff_obeys hQ).mp (hrest a)

end Run.Shorter

/-- The evaluator `i` does what `j` does, unless a signal of the kind cuts it short. -/
structure Interp.Shorter (S : Signal → Prop) (i j : Interp) : Prop where
  fuel : i.fuel = j.fuel
  eval : ∀ env e, Run.Shorter S (i.eval env e) (j.eval env e)
  exec : ∀ env s, Run.Shorter S (i.exec env s) (j.exec env s)

namespace Interp.Shorter

variable (h : Interp.Shorter S i j)

include h

lemma follows : (Policy.free S).Follows i j :=
  ⟨h.fuel, fun e _ => (Run.Shorter.iff_obeys fun _ => trivial).mp (h.eval _ e),
    fun s _ _ => (Run.Shorter.iff_obeys fun _ _ _ => trivial).mp (h.exec _ s)⟩

lemma agrees : (Policy.free S).Agrees i j := h.follows.agrees fun _ _ _ _ => trivial

lemma evalAll (env : Env) (es : List (Expr Depth)) : Run.Shorter S (i.evalAll env es) (j.evalAll env es) :=
  (Run.Shorter.iff_obeys fun _ _ _ => trivial).mpr (h.agrees.evalAll (fun _ _ => trivial) es)

/-- **An expression is evaluated alike up to where its parts are.** -/
theorem evalStep (env : Env) (e : Expr Depth) : Run.Shorter S (i.evalStep env e) (j.evalStep env e) :=
  (Run.Shorter.iff_obeys fun _ => trivial).mpr (h.agrees.evalStep (fun _ _ => trivial) e)

/-- **A statement is executed alike up to where its parts are.** -/
theorem execStep (env : Env) (s : Stmt Depth) : Run.Shorter S (i.execStep env s) (j.execStep env s) :=
  (Run.Shorter.iff_obeys fun _ _ _ => trivial).mpr
    (h.follows.execStep (fun _ _ _ _ => trivial) (fun _ _ => trivial) fun _ _ => trivial)

end Interp.Shorter

end KScript

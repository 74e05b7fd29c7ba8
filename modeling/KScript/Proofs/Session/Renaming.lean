import KScript.Proofs.Alike.Sessions
import KScript.Proofs.Rename.Resolve
import Mathlib

/-!
# Renaming a local variable changes nothing

What a local variable or a parameter is called cannot be seen, as long as the name is new: a script in which
it was renamed is accepted with the same depths, and it runs in the same way in every session.
-/

namespace KScript

open Scope

/-- The likeness that exchanges two names and nothing else. -/
def Likeness.exchange (x y : String)
    (h : ∀ name ∈ [x, y], name ≠ thisName ∧ name ≠ superName) : Likeness where
  first := x
  second := y
  Same t t' := t' = t
  same_kind heq := by rw [heq]
  same_lexeme heq := by rw [heq]
  declarable := h

lemma Likeness.exact_exchange {x y : String}
    (h : ∀ name ∈ [x, y], name ≠ thisName ∧ name ≠ superName) : (Pairing.mk (exchange x y h) "" []).Exact :=
  ⟨fun _ _ => Iff.rfl, rfl, rfl⟩

/-- A renamed program is accepted, and resolving it gives back the depths that it was renamed with. -/
lemma Program.Renamed.accepted {x y : String} {program : Program Unit} {renamed : Program Depth}
    (h : Program.Renamed x y program.resolve renamed)
    (hreserved : ∀ name ∈ [x, y], name ≠ thisName ∧ name ≠ superName)
    (hfresh : y ∉ program.resolve.names) (hcheck : program.check = []) :
    renamed.forget.check = [] ∧ renamed.forget.resolve = renamed :=
  Stmt.RenamedAll.accepted (L := Likeness.exchange x y hreserved) Context.Like.topLevel h hfresh hcheck

namespace Session

/-- **Renaming a local variable changes nothing.**  Take a script that is accepted, and replace the name `x`
by `y` in some of its local scopes: where a variable or a parameter `x` is declared in one of them, and at
exactly the references that were resolved to it.  If `y` does not occur in the script, then

* the new script is accepted, and every reference has the depth that it had;
* in every session that can be reached both scripts give the same report: the same output and the same debug
  lines, and the same outcome, with its message, its line and its trace, or both break down over a name that
  a frame does not bind;
* they read the same input and leave the same globals, but for the code of routines;
* and whatever scripts the session runs next, these tell the same after both. -/
theorem renaming_unseen {sources : List String} {s : Session} (hs : Reached sources s)
    {source source' : String} (haccepted : (prepare source).1 = []) {x y : String}
    (hreserved : ∀ name ∈ [x, y], name ≠ thisName ∧ name ≠ superName)
    (hfresh : y ∉ Program.names (prepare source).2) {renamed : Program Depth}
    (hrenamed : Program.Renamed x y (prepare source).2 renamed)
    (hsource' : Parsed.ofSource source' = ⟨renamed.forget, []⟩) (echo : Bool) :
    let after := s.runScript source echo
    let after' := s.runScript source' echo
    prepare source' = ([], renamed)
      ∧ after.1.Alike after'.1
      ∧ after'.1.outcome.text = after.1.outcome.text
      ∧ after'.2.machine.console.input = after.2.machine.console.input
      ∧ after'.2.globalOutlines = after.2.globalOutlines
      ∧ ∀ scripts, List.Forall₂ Report.Alike (after.2.reportsOf scripts)
          (after'.2.reportsOf scripts) := by
  intro after after'
  obtain ⟨-, hcheck, hresolve⟩ := prepare_accepted haccepted
  have hprepare : prepare source = ([], (prepare source).2) := by rw [← haccepted]
  rw [hresolve] at hfresh hrenamed
  have hnew := hrenamed.accepted hreserved hfresh hcheck
  have hprepare' : prepare source' = ([], renamed) := by
    unfold prepare
    rw [hsource']
    exact Prod.ext hnew.1 hnew.2
  have hexact := Likeness.exact_exchange hreserved
  have hlike : Stmt.LikeAll (Likeness.exchange x y hreserved) [] (prepare source).2 renamed := by
    rw [hresolve]
    exact Stmt.RenamedAll.like (fun _ => rfl) hrenamed hfresh
  obtain ⟨W, hself⟩ := hs.like_self hexact
  obtain ⟨hreport, W', hafter⟩ := runScript_alike hexact hself hprepare hprepare' hlike echo
  refine ⟨hprepare', hreport, hreport.outcome.text, ?_, globalOutlines_eq hafter,
    fun scripts => reportsOf_alike hexact hafter⟩
  rw [hafter.machine.console]

/-- A routine that keeps its parameter for another one, next to a block with a variable `x` of its own. -/
def shadowScript (name : String) : String :=
  "sub keep(" ++ name ++ ") \x7b sub peek() \x7b return " ++ name
    ++ "; \x7d \x7b var x = zilch; \x7d return peek; \x7d var f = keep(true);"

/-- The program of that script. -/
def shadowProgram (name : String) : Program Depth :=
  let word (text : String) : Token := ⟨.identifier, text, none, 1⟩
  let back (ref : Reference Depth) : Stmt Depth :=
    .giveBack ⟨.returnWord, "return", none, 1⟩ (some (.variable ref))
  [.routine ⟨word "keep", [word name],
      [.routine ⟨word "peek", [], [back ⟨word name, some 1⟩]⟩,
        .block [.var (word "x") (some (.literal .zilch))], back ⟨word "peek", some 0⟩]⟩,
    .var (word "f") (some (.call (.variable ⟨word "keep", none⟩) ⟨.rightParen, ")", none, 1⟩
      [.literal (.bool true)]))]

lemma prepare_shadowScript : prepare (shadowScript "x") = ([], shadowProgram "x") := by cbv

lemma parsed_shadowScript :
    Parsed.ofSource (shadowScript "y") = ⟨(shadowProgram "y").forget, []⟩ := by cbv

/-- The parameter is renamed where it is declared and in the inner routine; the `x` of the block stays. -/
lemma renamed_shadowProgram : Program.Renamed "x" "y" (shadowProgram "x") (shadowProgram "y") := by
  refine ⟨_, _, rfl, ⟨true, _, rfl, by decide, ?_⟩, _, _, rfl, rfl, rfl⟩
  refine ⟨_, _, rfl, ⟨false, _, rfl, by decide, ?_⟩, _, _, rfl, ⟨false, _, rfl, ?_⟩, _, _, rfl, rfl, rfl⟩
  · exact ⟨_, _, rfl, rfl, rfl⟩
  · exact ⟨_, _, rfl, rfl, rfl⟩

theorem renaming_unseen_shadowScript :
    let s := Session.new true false "" 0
    let after := s.runScript (shadowScript "x") false
    let after' := s.runScript (shadowScript "y") false
    Reached [] s ∧ prepare (shadowScript "x") = ([], shadowProgram "x")
      ∧ Program.Renamed "x" "y" (shadowProgram "x") (shadowProgram "y")
      ∧ prepare (shadowScript "y") = ([], shadowProgram "y")
      ∧ after.1.Alike after'.1
      ∧ after'.2.globalOutlines = after.2.globalOutlines := by
  intro s after after'
  have hs : Reached [] s := .new true false "" 0
  have hfresh : "y" ∉ (shadowProgram "x").names := by decide +kernel
  have h := @renaming_unseen [] s hs (shadowScript "x") (shadowScript "y")
    (by rw [prepare_shadowScript]) "x" "y" (by decide) (by rw [prepare_shadowScript]; exact hfresh)
    (shadowProgram "y") (by rw [prepare_shadowScript]; exact renamed_shadowProgram)
    parsed_shadowScript false
  exact ⟨hs, prepare_shadowScript, renamed_shadowProgram, h.1, h.2.1, h.2.2.2.2.1⟩

end Session

end KScript

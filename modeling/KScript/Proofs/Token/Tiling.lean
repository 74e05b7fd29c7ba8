import KScript.Proofs.Token.Pieces

/-!
# The scanner tiles the source

A source text is cut into pieces with nothing left out.  `Tiled` says which tokens and which complaints
belong to a text: those of its next piece, on the line where that piece ends, and then those of the rest.
Since every text begins with exactly one piece, a text has exactly one tiling, and the scanner finds it.
-/

namespace KScript

open Scan

/-- The line on which a script is after that text. -/
def lineAfter (text : List Char) : Nat := 1 + text.count '\n'

/-- The tokens and the complaints of a text that stands after `before`. -/
inductive Tiled : List Char → List Char → List Token → List Diagnostic → Prop where
  | done {before : List Char} : Tiled before [] [] []
  | gap {before text rest : List Char} {tokens : List Token} {faults : List Diagnostic} {piece : Piece}
      (hpiece : piece = .blank ∨ piece = .comment) (h : Next piece text rest)
      (hrest : Tiled (before ++ text) rest tokens faults) : Tiled before (text ++ rest) tokens faults
  | fault {before text rest : List Char} {tokens : List Token} {faults : List Diagnostic}
      {complaint : Complaint} (h : Next (.fault complaint) text rest)
      (hrest : Tiled (before ++ text) rest tokens faults) :
      Tiled before (text ++ rest) tokens (⟨lineAfter (before ++ text), .line, complaint⟩ :: faults)
  | token {before text rest : List Char} {tokens : List Token} {faults : List Diagnostic} {kind : Kind}
      {literal : Option Literal} (h : Next (.token kind literal) text rest)
      (hrest : Tiled (before ++ text) rest tokens faults) :
      Tiled before (text ++ rest)
        (⟨kind, String.ofList text, literal, lineAfter (before ++ text)⟩ :: tokens) faults

variable {before text rest : List Char} {piece : Piece}

/-! ## One piece -/

lemma Next.ne_nil (h : Next piece text rest) : text ≠ [] := by
  cases h with
  | blank | comment => simp
  | fault h => cases h <;> simp
  | token h => exact h.ne_nil

/-- Every text that is not empty begins with a piece. -/
lemma exists_next {whole : List Char} (h : whole ≠ []) :
    ∃ piece text rest, whole = text ++ rest ∧ Next piece text rest := by
  obtain ⟨c, rest, rfl⟩ := List.exists_cons_of_ne_nil h
  exact ⟨_, _, _, by simp, classify_next c rest⟩

/-- **Induction over the pieces of a text.**  Each piece takes at least one character. -/
@[elab_as_elim]
lemma pieces_induction {motive : List Char → Prop} (nil : motive [])
    (next : ∀ {piece : Piece} {text rest : List Char}, Next piece text rest → motive rest →
      motive (text ++ rest)) (whole : List Char) : motive whole := by
  induction hlength : whole.length using Nat.strong_induction_on generalizing whole with
  | _ n ih =>
      by_cases hwhole : whole = []
      · exact hwhole ▸ nil
      · obtain ⟨piece, text, rest, rfl, h⟩ := exists_next hwhole
        have hpos : 0 < text.length := List.length_pos_iff.mpr h.ne_nil
        exact next h (ih rest.length (by rw [← hlength, List.length_append]; omega) rest rfl)

/-- The characters to skip are those of the piece before. -/
lemma cut_eq_drop (n : Nat) (text : List Char) : cut n text = cut 0 (text.drop n) := by
  induction text generalizing n with
  | nil => simp [cut]
  | cons c text ih =>
      cases n with
      | zero => rfl
      | succ n => rw [cut, ih, List.drop_succ_cons]

/-- **The step.**  The next piece is cut off, and cutting goes on behind it. -/
lemma cut_of_next (h : Next piece text rest) : cut 0 (text ++ rest) = ⟨piece, text⟩ :: cut 0 rest := by
  obtain ⟨c, more, rfl⟩ := List.exists_cons_of_ne_nil h.ne_nil
  have hfound := classify_next c (more ++ rest)
  obtain ⟨hpiece, htext⟩ := h.unique hfound (by simp)
  rw [List.cons_append, cut, hpiece, htext, cut_eq_drop]
  have hrest := List.take_append_drop (classify c (more ++ rest)).2 (more ++ rest)
  rw [(List.cons.inj htext).2, List.append_cancel_left_eq] at hrest
  rw [hrest]

/-! ## The whole text -/

/-- The line is carried along from piece to piece. -/
lemma numbered_cons (f : Fragment) (fs : List Fragment) :
    numbered (lineAfter before) (f :: fs)
      = (f, lineAfter (before ++ f.text)) :: numbered (lineAfter (before ++ f.text)) fs := by
  simp [numbered, lineAfter, lineBreaks, Nat.add_assoc]

/-- A tiling is what cutting finds. -/
lemma Tiled.eq_cut {whole : List Char} {tokens : List Token} {faults : List Diagnostic}
    (h : Tiled before whole tokens faults) :
    tokens = (numbered (lineAfter before) (cut 0 whole)).filterMap tokenOf?
      ∧ faults = (numbered (lineAfter before) (cut 0 whole)).filterMap faultOf? := by
  induction h with
  | done => simp [cut, numbered]
  | gap hpiece h _ ih =>
      rw [cut_of_next h, numbered_cons]
      rcases hpiece with rfl | rfl <;> simpa [List.filterMap_cons, tokenOf?, faultOf?] using ih
  | fault h _ ih | token h _ ih =>
      rw [cut_of_next h, numbered_cons]
      simpa [List.filterMap_cons, tokenOf?, faultOf?] using ih

/-- What cutting finds is a tiling. -/
lemma tiled_cut (before whole : List Char) :
    Tiled before whole ((numbered (lineAfter before) (cut 0 whole)).filterMap tokenOf?)
      ((numbered (lineAfter before) (cut 0 whole)).filterMap faultOf?) := by
  induction whole using pieces_induction generalizing before with
  | nil => exact .done
  | @next piece text rest h ih =>
      rw [cut_of_next h, numbered_cons]
      cases piece with
      | token kind literal => exact .token h (ih _)
      | blank => exact .gap (.inl rfl) h (ih _)
      | comment => exact .gap (.inr rfl) h (ih _)
      | fault complaint => exact .fault h (ih _)

/-- **The scanner tiles the source.**  Its tokens and its complaints are those of the one tiling that the
source has, and the script ends on the line after all its line breaks. -/
theorem Scan.ofSource_tiled (source : String) :
    (∀ tokens faults, Tiled [] source.toList tokens faults
        ↔ tokens = (Scan.ofSource source).tokens ∧ faults = (Scan.ofSource source).faults)
      ∧ (Scan.ofSource source).endLine = lineAfter source.toList := by
  refine ⟨fun tokens faults => ⟨Tiled.eq_cut, ?_⟩, rfl⟩
  rintro ⟨rfl, rfl⟩
  exact tiled_cut [] source.toList

end KScript

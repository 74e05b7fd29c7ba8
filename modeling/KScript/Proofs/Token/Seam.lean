import KScript.Proofs.Lines.Relined
import KScript.Proofs.Token.Tiling

/-!
# Scanning over the end of a line

Texts that are scanned one after the other are scanned together, with a new line between them: no piece of
the first goes on behind it, unless a text in quotes does not end there.  So the tokens and the complaints
of the two are put one after the other, those of the second further down.  Where a text in quotes does not
end, the complaint about it moves down with the end of the script, and this is never so.
-/

namespace KScript

open Scan

variable {text rest tail : List Char} {piece : Piece} {blank : Char}

/-! ## Blanks in lexemes -/

/-- A blank is no part of a word, of a mark or of a numeral. -/
lemma class_of_mem_blanks : ∀ b ∈ blanks, isWordChar b = false ∧ b ≠ '.' ∧ b ≠ '/'
    ∧ (∀ entry ∈ Kind.marks, b ∉ entry.1) ∧ ∀ entry ∈ bases, b ≠ entry.1 ∧ entry.2.2 b = false := by
  simp [blanks, isWordChar, isLetter, Kind.marks, bases, isBinaryDigit, isHexDigit]

lemma not_isDigit_of_mem_blanks (hblank : blank ∈ blanks) : blank.isDigit = false := by
  have hword := (class_of_mem_blanks blank hblank).1
  exact (Bool.or_eq_false_iff.mp hword).2

/-- No numeral holds a blank. -/
lemma Numeral.notMem_blank {x : Float} (hblank : blank ∈ blanks) (h : Numeral text x) : blank ∉ text := by
  obtain ⟨-, hpoint, -, -, hbases⟩ := class_of_mem_blanks blank hblank
  have hdigit := not_isDigit_of_mem_blanks hblank
  have hdigits : ∀ {digits : List Char}, (∀ d ∈ digits, d.isDigit = true) → blank ∉ digits :=
    fun h hmem => by simp [h blank hmem] at hdigit
  cases h with
  | decimal _ h => exact hdigits h
  | fraction _ h _ h' => simp [hdigits h, hdigits h', hpoint]
  | @based _ _ _ digits hbase _ h =>
      obtain ⟨hmark, hbaseDigit⟩ := hbases _ hbase
      have hzero : blank ≠ '0' := by
        rintro rfl
        exact absurd hblank (by decide)
      have hmem : blank ∉ digits := fun hmem => by simp [h blank hmem] at hbaseDigit
      simp [hzero, hmark, hmem]

/-- Only a text in quotes goes on over a blank. -/
lemma Lexeme.mem_quotes {kind : Kind} {literal : Option Literal} {c : Char} {more : List Char}
    (h : Lexeme (c :: more) kind literal) (hblank : blank ∈ blanks) (hmem : blank ∈ c :: more) :
    c ∈ quotes := by
  obtain ⟨hword, -, -, hmarks, -⟩ := class_of_mem_blanks blank hblank
  generalize htext : c :: more = text at h hmem
  cases h with
  | mark h => exact absurd hmem (hmarks _ h)
  | word hc hrest =>
      rcases List.mem_cons.mp hmem with rfl | hmem
      · simp [isWordChar, hc] at hword
      · simp [hrest _ hmem] at hword
  | string hquote => exact (List.cons.inj htext).1 ▸ hquote
  | number h => exact absurd hmem (h.notMem_blank hblank)

/-! ## One piece -/

/-- What the text begins with and does not reach over its end was there before more was written behind it. -/
lemma prefix_or_mem_of_seam {other whole : List Char} (h : other <+: whole ++ blank :: tail) :
    other <+: whole ∨ blank ∈ other := by
  rcases List.prefix_or_prefix_of_prefix h (List.prefix_append whole _) with h' | ⟨more, rfl⟩
  · exact Or.inl h'
  · rw [List.prefix_append_right_inj] at h
    cases more with
    | nil => simp
    | cons d more =>
        obtain ⟨rfl, -⟩ := List.cons_prefix_cons.mp h
        simp

/-- No lexeme becomes longer by a blank. -/
lemma Longest.seam {kind : Kind} {literal : Option Literal} (hlexeme : Lexeme text kind literal)
    (hblank : blank ∈ blanks) (h : Longest text rest) : Longest text (rest ++ blank :: tail) := by
  obtain ⟨c, more, rfl⟩ := List.exists_cons_of_ne_nil hlexeme.ne_nil
  intro other kind' literal' hother hbegin
  rw [← List.append_assoc] at hbegin
  rcases prefix_or_mem_of_seam hbegin with hwhole | hmem
  · exact h other kind' literal' hother hwhole
  · cases other with
    | nil => exact Nat.zero_le _
    | cons d other =>
        obtain ⟨rfl, -⟩ := List.cons_prefix_cons.mp hbegin
        have hquote := hother.mem_quotes hblank hmem
        rw [List.append_assoc] at hbegin
        exact longest_of_quote hquote hlexeme _ _ _ hother hbegin

lemma commentAt_seam {whole : List Char} (hblank : blank ∈ blanks)
    (h : CommentAt (whole ++ blank :: tail)) : CommentAt whole := by
  obtain ⟨-, -, hslash, -⟩ := class_of_mem_blanks blank hblank
  exact (prefix_or_mem_of_seam h).resolve_right (by simpa using hslash)

/-- Where a lexeme begins, nothing comes to be at fault by a blank. -/
lemma faultAt_seam {kind : Kind} {literal : Option Literal} {whole : List Char}
    (hlexeme : Lexeme text kind literal) (hblank : blank ∈ blanks)
    (htext : text <+: whole) (h : FaultAt (whole ++ blank :: tail)) : FaultAt whole := by
  obtain ⟨-, -, -, -, hbases⟩ := class_of_mem_blanks blank hblank
  obtain ⟨complaint, bad, after, heq, hfaulty⟩ := h
  obtain ⟨c, more, rfl⟩ := List.exists_cons_of_ne_nil hlexeme.ne_nil
  obtain ⟨rest, rfl⟩ := htext
  cases hfaulty with
  | character _ hno =>
      obtain ⟨rfl, -⟩ := List.cons.inj heq
      exact absurd hlexeme (hno _ _ _)
  | @base mark _ _ _ hbase hafter =>
      obtain ⟨rfl, hbehind⟩ := List.cons.inj heq
      change mark :: after = (more ++ rest) ++ blank :: tail at hbehind
      rw [List.cons_append]
      generalize more ++ rest = behind at hbehind ⊢
      cases behind with
      | nil =>
          obtain ⟨rfl, -⟩ := List.cons.inj hbehind
          exact absurd rfl (hbases _ hbase).1
      | cons d behind =>
          obtain ⟨rfl, rfl⟩ := List.cons.inj hbehind
          refine ⟨_, ['0', mark], behind, rfl, .base hbase fun e he => hafter e ?_⟩
          cases behind with
          | nil => cases he
          | cons => exact he
  | @string _ body hquote hbody =>
      obtain ⟨rfl, hbehind⟩ := List.cons.inj heq
      change body ++ [] = (more ++ rest) ++ blank :: tail at hbehind
      rw [List.append_nil] at hbehind
      refine ⟨_, _, [], List.append_nil _, .string hquote fun hmem => hbody ?_⟩
      rw [hbehind]
      exact List.mem_append_left _ hmem

/-- **A blank behind a text changes none of its tokens.** -/
lemma Next.token_seam {kind : Kind} {literal : Option Literal} (h : Next (.token kind literal) text rest)
    (hblank : blank ∈ blanks) : Next (.token kind literal) text (rest ++ blank :: tail) := by
  cases h with
  | token hlexeme hlongest hcomment hfault =>
      refine .token hlexeme (hlongest.seam hlexeme hblank) (fun h => hcomment ?_) fun h => hfault ?_
      · exact commentAt_seam hblank (by rwa [List.append_assoc])
      · exact faultAt_seam hlexeme hblank (List.prefix_append ..) (by rwa [List.append_assoc])

/-- **A new line behind a text changes none of its pieces,** but for a text in quotes that does not end. -/
lemma Next.seam (h : Next piece text rest) (hpiece : piece ≠ .fault .unterminatedString) :
    Next piece text (rest ++ '\n' :: tail) := by
  have hhead : ∀ {P : Char → Prop}, P '\n' → (∀ c ∈ rest.head?, P c) →
      ∀ c ∈ (rest ++ '\n' :: tail).head?, P c := by
    intro P hbreak hrest c hc
    cases rest with
    | nil =>
        obtain rfl := Option.some.inj hc
        exact hbreak
    | cons => exact hrest c hc
  cases h with
  | blank hc => exact .blank hc
  | comment hbody hrest => exact .comment hbody (hhead rfl hrest)
  | fault h =>
      cases h with
      | character hblank hno => exact .fault (.character hblank hno)
      | base hbase hrest =>
          refine .fault (.base hbase (hhead ?_ hrest))
          simp only [bases, List.mem_cons, List.not_mem_nil, or_false, Prod.mk.injEq] at hbase
          rcases hbase with ⟨-, -, rfl⟩ | ⟨-, -, rfl⟩ <;> decide
      | string => exact absurd rfl hpiece
  | token hlexeme hlongest hcomment hfault =>
      exact Next.token_seam (.token hlexeme hlongest hcomment hfault) (by decide)

/-! ## All pieces -/

lemma cut_seam {a b : List Char} (h : ∀ f ∈ cut 0 a, f.piece ≠ .fault .unterminatedString) :
    cut 0 (a ++ '\n' :: b) = cut 0 a ++ ⟨.blank, ['\n']⟩ :: cut 0 b := by
  induction a using pieces_induction with
  | nil =>
      have hbreak : Next .blank ['\n'] b := .blank (by decide)
      simpa [cut] using cut_of_next hbreak
  | next hnext ih =>
      rw [cut_of_next hnext, List.forall_mem_cons] at h
      rw [cut_of_next hnext, List.append_assoc, cut_of_next (hnext.seam h.1), ih h.2, List.cons_append]

/-- The pieces are all of the text. -/
lemma flatMap_cut (a : List Char) : (cut 0 a).flatMap (·.text) = a := by
  induction a using pieces_induction with
  | nil => simp [cut]
  | next hnext ih => rw [cut_of_next hnext, List.flatMap_cons, ih]

/-! ## Lines -/

lemma numbered_append (line : Nat) (fs gs : List Fragment) :
    numbered line (fs ++ gs)
      = numbered line fs ++ numbered (line + lineBreaks (fs.flatMap (·.text))) gs := by
  induction fs generalizing line with
  | nil => simp [numbered, lineBreaks]
  | cons f fs ih => simp [numbered, ih, lineBreaks, Nat.add_assoc]

lemma numbered_add (line k : Nat) (fs : List Fragment) :
    numbered (line + k) fs = (numbered line fs).map fun entry => (entry.1, entry.2 + k) := by
  induction fs generalizing line with
  | nil => rfl
  | cons f fs ih => simp [numbered, ← ih, Nat.add_right_comm]

lemma tokenOf?_add (f : Fragment) (line k : Nat) :
    tokenOf? (f, line + k) = (tokenOf? (f, line)).map (Token.relined (· + k)) := by
  obtain ⟨piece, text⟩ := f
  cases piece <;> rfl

lemma faultOf?_add (f : Fragment) (line k : Nat) :
    faultOf? (f, line + k) = (faultOf? (f, line)).map (Diagnostic.relined (· + k)) := by
  obtain ⟨piece, text⟩ := f
  cases piece <;> rfl

/-- A fragment at fault is complained about. -/
lemma mem_faults_of_mem_cut {f : Fragment} {complaint : Complaint} {fs : List Fragment} (line : Nat)
    (hf : f ∈ fs) (hpiece : f.piece = .fault complaint) :
    ∃ d ∈ (numbered line fs).filterMap faultOf?, d.complaint = complaint := by
  obtain ⟨before, behind, rfl⟩ := List.append_of_mem hf
  obtain ⟨piece, text⟩ := f
  subst hpiece
  rw [numbered_append, List.filterMap_append]
  exact ⟨_, List.mem_append_right _ List.mem_cons_self, rfl⟩

/-- **Scanning goes on over the end of a line.** -/
theorem Scan.ofSource_seam {a b : String}
    (h : ∀ d ∈ (Scan.ofSource a).faults, d.complaint ≠ .unterminatedString) :
    (Scan.ofSource (a ++ "\n" ++ b)).tokens = (Scan.ofSource a).tokens
        ++ (Scan.ofSource b).tokens.map (Token.relined (· + lineAfter a.toList))
      ∧ (Scan.ofSource (a ++ "\n" ++ b)).faults = (Scan.ofSource a).faults
        ++ (Scan.ofSource b).faults.map (Diagnostic.relined (· + lineAfter a.toList))
      ∧ (Scan.ofSource (a ++ "\n" ++ b)).endLine = (Scan.ofSource b).endLine + lineAfter a.toList := by
  have hcut : cut 0 (a ++ "\n" ++ b).toList = cut 0 a.toList ++ ⟨.blank, ['\n']⟩ :: cut 0 b.toList := by
    rw [String.toList_append, String.toList_append, List.append_assoc]
    refine cut_seam fun f hf hpiece => ?_
    obtain ⟨d, hd, hcomplaint⟩ := mem_faults_of_mem_cut 1 hf hpiece
    exact h d hd hcomplaint
  have hlines : numbered 1 (cut 0 (a ++ "\n" ++ b).toList) = numbered 1 (cut 0 a.toList)
      ++ (⟨.blank, ['\n']⟩, 1 + lineAfter a.toList)
        :: (numbered 1 (cut 0 b.toList)).map fun entry => (entry.1, entry.2 + lineAfter a.toList) := by
    have hline : 1 + lineBreaks a.toList + lineBreaks ['\n'] = 1 + lineAfter a.toList := by
      simp [lineBreaks, lineAfter, Nat.add_comm]
    rw [hcut, numbered_append, flatMap_cut, ← numbered_add, numbered, hline]
  refine ⟨?_, ?_, ?_⟩
  · simp only [Scan.ofSource, fragments, hlines, List.filterMap_append]
    rw [List.filterMap_cons_none rfl, List.filterMap_map, List.map_filterMap]
    simp only [Function.comp_def, tokenOf?_add]
  · simp only [Scan.ofSource, fragments, hlines, List.filterMap_append]
    rw [List.filterMap_cons_none rfl, List.filterMap_map, List.map_filterMap]
    simp only [Function.comp_def, faultOf?_add]
  · simp only [Scan.ofSource, lineBreaks, lineAfter, String.toList_append, List.count_append]
    have hbreak : List.count '\n' "\n".toList = 1 := rfl
    omega

/-! ## Texts that do not end

A text in quotes that does not end is complained about where the script ends.  That place moves when more is
written behind the script, so the complaint is never found again where it was. -/

lemma Tiled.line_of_unterminated {before whole : List Char} {tokens : List Token} {faults : List Diagnostic}
    (h : Tiled before whole tokens faults) :
    ∀ d ∈ faults, d.complaint = .unterminatedString → d.line = lineAfter (before ++ whole) := by
  induction h with
  | done => simp
  | gap _ _ _ ih => rwa [List.append_assoc] at ih
  | fault h _ ih =>
      rw [List.append_assoc] at ih
      refine List.forall_mem_cons.mpr ⟨?_, ih⟩
      rintro rfl
      cases h with
      | fault h =>
          -- Nothing is left behind such a text.
          cases h with
          | string => rw [List.append_nil]
  | token _ _ ih => rwa [List.append_assoc] at ih

lemma Scan.line_of_unterminated {source : String} {d : Diagnostic} (hd : d ∈ (Scan.ofSource source).faults)
    (hcomplaint : d.complaint = .unterminatedString) : d.line = (Scan.ofSource source).endLine :=
  (tiled_cut [] source.toList).line_of_unterminated d hd hcomplaint

/-! ## Two scans -/

attribute [ext] Scan

/-- The scan of a text that stands `n` lines further down. -/
def Scan.lowered (n : Nat) (s : Scan) : Scan where
  tokens := s.tokens.map (Token.relined (· + n))
  endLine := s.endLine + n
  faults := s.faults.map (Diagnostic.relined (· + n))

/-- One scan and then another, which alone says where the script ends. -/
def Scan.andThen (s t : Scan) : Scan where
  tokens := s.tokens ++ t.tokens
  endLine := t.endLine
  faults := s.faults ++ t.faults

/-- **Scanning composes at the end of a line.**  Two texts with a new line between them have the tokens of the
first and then those of the second, the complaints about the first and then those about the second, and they
end where the second ends; all that comes from the second stands further down, by as many lines as the first
text has.  This is so exactly if the first text is not complained about for a text in quotes that does not
end. -/
theorem Scan.composes_iff_terminated (a b : String) :
    Scan.ofSource (a ++ "\n" ++ b)
        = (Scan.ofSource a).andThen ((Scan.ofSource b).lowered (1 + a.toList.count '\n'))
      ↔ ∀ d ∈ (Scan.ofSource a).faults, d.complaint ≠ .unterminatedString := by
  constructor
  · intro hcomposed d hd hcomplaint
    have hmem : d ∈ (Scan.ofSource (a ++ "\n" ++ b)).faults := by
      rw [hcomposed]
      exact List.mem_append_left _ hd
    -- The complaint would stand on the last line of the first text and on that of both.
    have hlines : (Scan.ofSource a).endLine = (Scan.ofSource b).endLine + (1 + a.toList.count '\n') := by
      rw [← Scan.line_of_unterminated hd hcomplaint, Scan.line_of_unterminated hmem hcomplaint, hcomposed]
      rfl
    simp only [Scan.ofSource, lineBreaks] at hlines
    omega
  · intro hterminated
    obtain ⟨htokens, hfaults, hend⟩ := Scan.ofSource_seam (b := b) hterminated
    exact Scan.ext htokens hend hfaults

/-- A text over two lines, a point behind a numeral, and the mark of a base without a digit at the end. -/
def closedText : String := "'p\nq' 7. 0x"

/-- A comment with a quote in it, and a text that does not end. -/
def openText : String := "f // \"\n0b1 \"r"

theorem Scan.composes_closedText :
    (Scan.ofSource closedText).faults ≠ [] ∧ (Scan.ofSource openText).faults ≠ []
      ∧ Scan.ofSource (closedText ++ "\n" ++ openText)
          = (Scan.ofSource closedText).andThen ((Scan.ofSource openText).lowered 2)
      ∧ Scan.ofSource (openText ++ "\n" ++ closedText)
          ≠ (Scan.ofSource openText).andThen ((Scan.ofSource closedText).lowered 2) := by
  refine ⟨by decide +kernel, by decide +kernel, ?_, ?_⟩
  · exact (Scan.composes_iff_terminated closedText openText).mpr (by decide +kernel)
  · exact mt (Scan.composes_iff_terminated openText closedText).mp (by decide +kernel)

end KScript

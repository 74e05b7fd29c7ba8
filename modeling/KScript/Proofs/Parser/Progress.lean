import KScript.Proofs.Parser.Stable
import KScript.Proofs.Parser.StatementSound
import Mathlib

/-!
# Recovery goes on and ends

However malformed a script is, reading it goes on until nothing is left.  `Parsed.recovery_progresses` says
so without fuel: the grammar of statements is entered again as `unbounded`, in which every parser has fuel for
all tokens in front of it, and no bound is ever met.  Each declaration that is read with something in front
reads at least one token, whether it answers or is dropped, and one that is dropped has been complained about
at the place where it broke off.
-/

namespace KScript.Parser

variable {α β : Type} {n fuel : Nat} {c : Cursor} {grammar grammar' : Grammar} {context : Context}

/-! ## Blocks -/

/-- The grammars have the same outcomes with fewer than `n` tokens in front of them. -/
structure Grammar.Steady (n : Nat) (grammar grammar' : Grammar) : Prop where
  statement : ∀ context, Stable [] n (grammar.statement context) (grammar'.statement context)
  declaration : ∀ context, Stable [] n (grammar.declaration context) (grammar'.declaration context)

/-- At the end of a block, or with something in front. -/
lemma Stable.blockOver {f g : Bool → Parser β} (hyes : Stable [] n (f true) (g true))
    (hno : ∀ c : Cursor, c.rest ≠ [] → c.rest.length < n →
      f false c = g false c ∧ Stops c.rest c (f false c)) :
    Stable [] n (blockOver >>= f) (blockOver >>= g) := by
  intro c hc
  rw [bind_ok (blockOver_eq c), bind_ok (blockOver_eq c)]
  cases hover : c.rest.head?.all (·.kind = .rightBrace) with
  | true => exact hyes c hc
  | false =>
      refine hno c ?_ hc
      rintro hnil
      simp [hnil] at hover

/-- After something has been read, one token less is left. -/
lemma Stable.bind_shrinks {p q : Parser α} {f g : α → Parser β} (hp : Stable [] (n + 1) p q)
    (hshrinks : Shrinks (n + 1) p) (hf : ∀ a, Stable [] n (f a) (g a)) (hne : c.rest ≠ [])
    (hc : c.rest.length < n + 1) :
    (p >>= f) c = (q >>= g) c ∧ Stops c.rest c ((p >>= f) c) := by
  obtain ⟨hsame, hstops⟩ := hp c hc
  match hr : p c with
  | .error e d =>
      rw [bind_error hr, bind_error (hsame ▸ hr)]
      rw [hr] at hstops
      exact ⟨rfl, hstops⟩
  | .ok a d =>
      have hd := hshrinks c hne hc a d hr
      rw [hr] at hstops
      have hadvances : c.Advances d := hstops
      obtain ⟨hsame', hstops'⟩ := hf a d (by omega)
      rw [bind_ok hr, bind_ok (hsame ▸ hr)]
      exact ⟨hsame', hstops'.after hadvances hadvances.rest⟩

lemma declarations_stable (h : Sound n grammar) (hg : Grammar.Steady n grammar grammar') :
    ∀ k fuel fuel', k ≤ n → k ≤ fuel → k ≤ fuel' →
      Stable [] k (declarations grammar context fuel) (declarations grammar' context fuel')
  | 0, _, _, _, _, _ => .zero
  | k + 1, fuel + 1, fuel' + 1, hk, hfuel, hfuel' => by
      rw [declarations, declarations]
      have hmore := declarations_stable h hg k fuel fuel' (by omega) (by omega) (by omega)
      refine .blockOver .pure fun c hne hc => Stable.bind_shrinks ((hg.declaration context).mono hk)
        (fun c hne hc => h.shrinks context c hne (by omega)) (fun o => ?_) hne hc
      cases o with
      | none => exact hmore
      | some s => exact hmore.bind fun more => .pure

/-! ## Parsers that do not enter the grammar again -/

lemma varRest_stable : Stable [] n (varRest context) (varRest context) :=
  .expect fun _ => .option
    (fun _ _ => (expression_stable.map.bind fun _ => .expect fun _ => .pure).weaken)
    (Stable.pure.bind fun _ => .expect fun _ => .pure)

lemma condition_stable {opening : Expected} :
    Stable [] n (condition opening context) (condition opening context) :=
  .expect fun _ => expression_stable.bind fun _ => .expect fun _ => .pure

lemma valueRest_stable : Stable [] n (valueRest context) (valueRest context) :=
  expression_stable.bind fun _ => .expect fun _ => .pure

lemma expressionUnless_stable {close : Kind} :
    Stable [] n (expressionUnless close context) (expressionUnless close context) := by
  refine Stable.nextIs.bind fun closed => ?_
  split
  · exact .pure
  · exact expression_stable.bind fun e => .pure

lemma forStart_stable : Stable [] n (forStart context) (forStart context) := by
  refine .option (fun t _ => Stable.weaken ?_) (valueRest_stable.bind fun e => .pure)
  dsimp only
  split
  · exact .pure
  · exact varRest_stable.bind fun r => .pure

lemma checkParams_stable {form : RoutineForm} {params : List Token} :
    Stable [] n (checkParams form params) (checkParams form params) := by
  unfold checkParams
  split
  · exact Stable.peek.bind fun next => .report
  · exact .pure
  · exact Stable.peek.bind fun next => .report
  · exact .pure

lemma jumpRest_stable {word : Token} {jump : Jump} :
    Stable [word] n (jumpRest word jump context) (jumpRest word jump context) := by
  unfold jumpRest
  split
  · exact (Stable.expect fun semicolon => .pure).weaken
  · exact .jump

lemma exitRest_stable {word : Token} : Stable [] n (exitRest word context) (exitRest word context) :=
  .option (fun _ _ => .pure) (valueRest_stable.bind fun _ => .pure)

lemma returnRest_stable {word : Token} :
    Stable [] n (returnRest word context) (returnRest word context) :=
  expressionUnless_stable.bind fun _ => .expect fun _ => .pure

lemma stepRest_stable {word : Token} : Stable [] n (stepRest word) (stepRest word) :=
  .expect fun _ => .expect fun _ => .pure

/-! ## Routines and classes -/

section

variable (h : Sound n grammar) (hg : Grammar.Steady n grammar grammar') (hfuel : n ≤ fuel)

include h hg hfuel

lemma block_stable : Stable [] n (block grammar n context) (block grammar' fuel context) :=
  (declarations_stable h hg n n fuel (Nat.le_refl n) (Nat.le_refl n) hfuel).bind fun _ =>
    .expect fun _ => .pure

lemma routine_stable {form : RoutineForm} :
    Stable [] n (routine grammar n context form) (routine grammar' fuel context form) :=
  .expect fun _ => .expect fun _ => (Stable.token.listUpTo (Nat.le_refl n) hfuel).bind fun _ =>
    .expect fun _ => checkParams_stable.bind fun _ => .expect fun _ =>
      (block_stable h hg hfuel).bind fun _ => .pure

lemma member_stable : Stable [] n (member grammar n context) (member grammar' fuel context) := by
  refine .option (fun word _ => Stable.weaken ?_) ((routine_stable h hg hfuel).bind fun r => .pure)
  dsimp only
  split <;> exact (routine_stable h hg hfuel).bind fun r => .pure

lemma members_stable (context : Context) : ∀ k fuel₁ fuel₂, k ≤ n → k ≤ fuel₁ → k ≤ fuel₂ →
    Stable [] k (members grammar context n fuel₁) (members grammar' context fuel fuel₂)
  | 0, _, _, _, _, _ => .zero
  | k + 1, fuel₁ + 1, fuel₂ + 1, hk, hfuel₁, hfuel₂ => by
      rw [members, members]
      refine .blockOver .pure fun c hne hc => Stable.bind_shrinks ((member_stable h hg hfuel).mono hk)
        (fun c hne hc => member_shrinks h c hne (by omega)) (fun m => ?_) hne hc
      exact (members_stable context k fuel₁ fuel₂ (by omega) (by omega) (by omega)).bind fun more => .pure

lemma classRest_stable : Stable [] n (classRest grammar n context) (classRest grammar' fuel context) := by
  have hmembers := members_stable h hg hfuel { context with inClass := true } n n fuel (Nat.le_refl n)
    (Nat.le_refl n) hfuel
  exact .expect fun name => .option
    (fun arrow _ => (Stable.token.map.bind fun superclass => .expect fun left =>
      hmembers.bind fun all => .expect fun right => .pure).weaken)
    (Stable.pure.bind fun superclass => .expect fun left =>
      hmembers.bind fun all => .expect fun right => .pure)

/-! ## Statements and declarations -/

omit h hfuel in
lemma branchRest_stable : Stable [] n (branchRest grammar context) (branchRest grammar' context) :=
  condition_stable.bind fun _ => (hg.statement context).bind fun _ => .option
    (fun _ _ => ((hg.statement context).bind fun _ => .pure).weaken) .pure

omit h hfuel in
lemma loopRest_stable : Stable [] n (loopRest grammar context) (loopRest grammar' context) :=
  condition_stable.bind fun _ => (hg.statement _).bind fun _ => .pure

omit h hfuel in
lemma forRest_stable : Stable [] n (forRest grammar context) (forRest grammar' context) :=
  .expect fun _ => forStart_stable.bind fun _ => expressionUnless_stable.bind fun _ =>
    .expect fun _ => expressionUnless_stable.bind fun _ => .expect fun _ =>
      (hg.statement _).bind fun _ => .pure

lemma statement_stable :
    Stable [] (n + 1) (statement grammar n context) (statement grammar' fuel context) := by
  rw [statement, statement]
  refine .accept (fun t _ => ?_) (valueRest_stable.bind fun e => .pure)
  dsimp only
  split
  · exact (branchRest_stable hg).weaken
  · exact (loopRest_stable hg).weaken
  · exact (forRest_stable hg).weaken
  · exact exitRest_stable.weaken
  · exact returnRest_stable.weaken
  · exact jumpRest_stable
  · exact jumpRest_stable
  · exact ((block_stable h hg hfuel).bind fun body => .pure).weaken
  · exact stepRest_stable.weaken

lemma declarationOrStatement_stable (context : Context) :
    Stable [] (n + 1) (declarationOrStatement grammar n context)
      (declarationOrStatement grammar' fuel context) := by
  rw [declarationOrStatement, declarationOrStatement]
  refine .accept (fun t _ => Stable.weaken ?_) (statement_stable h hg hfuel)
  dsimp only
  split
  · exact classRest_stable h hg hfuel
  · exact (routine_stable h hg hfuel).bind fun r => .pure
  · exact varRest_stable.bind fun r => .pure

/-- A declaration that is dropped has stopped somewhere, and reading resumes from there. -/
lemma declaration_stable (context : Context) :
    Stable [] (n + 1) (declaration grammar n context) (declaration grammar' fuel context) := by
  intro c hc
  obtain ⟨hsame, hstops⟩ := declarationOrStatement_stable h hg hfuel context c hc
  unfold declaration
  rw [← hsame]
  refine ⟨rfl, ?_⟩
  cases hr : declarationOrStatement grammar n context c with
  | ok item d =>
      rw [hr] at hstops
      exact hstops
  | error e d =>
      rw [hr] at hstops
      obtain ⟨passed, hpassed⟩ := resume_suffix d.rest
      exact hstops.1.trans ⟨⟨passed, hpassed.symm⟩, List.prefix_rfl, rfl⟩

end

/-- **More fuel than tokens is enough for a statement**, however often the grammar is entered again. -/
theorem grammarAt_stable : ∀ n fuel, n ≤ fuel →
    Grammar.Steady n ⟨statementAt n, declarationAt n⟩ ⟨statementAt fuel, declarationAt fuel⟩
  | 0, _, _ => ⟨fun _ => .zero, fun _ => .zero⟩
  | n + 1, fuel + 1, h => by
      have hfuel : n ≤ fuel := Nat.le_of_succ_le_succ h
      have hg := grammarAt_stable n fuel hfuel
      exact ⟨fun context => by simpa only [statementAt] using statement_stable (sound n) hg hfuel,
        fun context => by simpa only [declarationAt] using declaration_stable (sound n) hg hfuel context⟩

/-! ## The grammar without a bound -/

/-- The grammar of statements, entered each time with fuel for all tokens that are left. -/
def unbounded : Grammar where
  statement context c := statementAt (c.rest.length + 1) context c
  declaration context c := declarationAt (c.rest.length + 1) context c

/-- With more fuel than tokens the bound is never met. -/
lemma unbounded_stable (n : Nat) : Grammar.Steady n ⟨statementAt n, declarationAt n⟩ unbounded where
  statement context c hc := by
    obtain ⟨hsame, hstops⟩ := (grammarAt_stable _ n hc).statement context c (Nat.lt_succ_self _)
    exact ⟨hsame.symm, hsame ▸ hstops⟩
  declaration context c hc := by
    obtain ⟨hsame, hstops⟩ := (grammarAt_stable _ n hc).declaration context c (Nat.lt_succ_self _)
    exact ⟨hsame.symm, hsame ▸ hstops⟩

/-- The grammar without a bound is what it is made of. -/
lemma unbounded_eq {bound : Nat} (h : c.rest.length ≤ bound) (context : Context) :
    unbounded.statement context c = statement unbounded bound context c
      ∧ unbounded.declaration context c = declaration unbounded bound context c := by
  have hsound := sound c.rest.length
  have hstable := unbounded_stable c.rest.length
  refine ⟨?_, ?_⟩
  · refine Eq.trans ?_ (statement_stable hsound hstable h c (Nat.lt_succ_self _)).1
    change statementAt (c.rest.length + 1) context c = _
    rw [statementAt]
  · refine Eq.trans ?_ (declaration_stable hsound hstable h context c (Nat.lt_succ_self _)).1
    change declarationAt (c.rest.length + 1) context c = _
    rw [declarationAt]

/-- Where a declaration that was dropped broke off, and why. -/
def Dropped (c d : Cursor) : Prop :=
  ∃ stop : Cursor, c.Advances stop ∧ d = { stop with rest := resume stop.rest }
    ∧ ∃ told own, c.reports <+: told ∧ d.reports = told ++ [own] ∧ own.Blames c.rest stop

/-- A declaration answers.  With something in front of it, it reads at least one token, and if it is dropped it
has been complained about. -/
lemma declaration_answers (h : Sound n grammar) (hg : Grammar.Steady n grammar grammar) (context : Context)
    (hc : c.rest.length < n + 1) :
    ∃ o d, declaration grammar n context c = .ok o d ∧ c.Advances d
      ∧ (c.rest ≠ [] → d.rest.length < c.rest.length) ∧ (o = none → Dropped c d) := by
  have hstops := (declaration_stable h hg (Nat.le_refl n) context c hc).2
  have hwhy := (declarationOrStatement_stable h hg (Nat.le_refl n) context c hc).2
  have hshrinks {o : Option Item} {d : Cursor} (hd : declaration grammar n context c = .ok o d)
      (hne : c.rest ≠ []) := declaration_shrinks h c hne hc o d hd
  cases hr : declarationOrStatement grammar n context c with
  | ok item d =>
      have hd : declaration grammar n context c = .ok (some item) d := by rw [declaration, hr]
      rw [hd] at hstops
      exact ⟨some item, d, hd, hstops, hshrinks hd, nofun⟩
  | error e stop =>
      have hd : declaration grammar n context c = .ok none { stop with rest := resume stop.rest } := by
        rw [declaration, hr]
      rw [hd] at hstops
      rw [hr] at hwhy
      exact ⟨none, _, hd, hstops, hshrinks hd, fun _ => ⟨stop, hwhy.1, rfl, hwhy.2⟩⟩

/-- **Every declaration answers**, without a bound. -/
theorem declaration_progresses (context : Context) (c : Cursor) :
    ∃ o d, unbounded.declaration context c = .ok o d ∧ c.Advances d
      ∧ (c.rest ≠ [] → d.rest.length < c.rest.length) ∧ (o = none → Dropped c d) := by
  have hanswers := declaration_answers (sound c.rest.length) (grammarAt_stable _ _ (Nat.le_refl _)) context
    (Nat.lt_succ_self c.rest.length)
  rw [← declarationAt] at hanswers
  exact hanswers

/-- A script is read to its end, however much fuel there is beyond what it takes. -/
theorem program_ends (c : Cursor) : ∃ items d, c.Advances d ∧ d.rest = []
    ∧ ∀ fuel, c.rest.length < fuel → program fuel c = .ok items d := by
  generalize hlen : c.rest.length = length
  induction length using Nat.strong_induction_on generalizing c with
  | _ length ih =>
    by_cases hnil : c.rest = []
    · refine ⟨[], c, .refl c, hnil, fun fuel hfuel => ?_⟩
      obtain ⟨fuel, rfl⟩ := Nat.exists_eq_succ_of_ne_zero (Nat.ne_zero_of_lt hfuel)
      have hend : atEnd c = .ok true c := by simp [atEnd, hnil]
      rw [program, bind_ok hend]
      rfl
    · obtain ⟨o, d, hread, hadvances, hshrinks, -⟩ := declaration_progresses topLevel c
      have hd := hshrinks hnil
      obtain ⟨items, e, hadvances', hrest, hmore⟩ := ih d.rest.length (by omega) d rfl
      refine ⟨o.toList ++ items, e, hadvances.trans hadvances', hrest, fun fuel hfuel => ?_⟩
      obtain ⟨fuel, rfl⟩ := Nat.exists_eq_succ_of_ne_zero (Nat.ne_zero_of_lt hfuel)
      have hend : atEnd c = .ok false c := by simp [atEnd, hnil]
      have hfirst : declarationAt (fuel + 1) topLevel c = .ok o d := by
        rw [← hread]
        exact ((unbounded_stable (fuel + 1)).declaration topLevel c (by omega)).1
      rw [program, bind_ok hend, if_neg (by simp), bind_ok hfirst]
      cases o with
      | none => exact hmore fuel (by omega)
      | some s => exact bind_ok (hmore fuel (by omega))

end Parser

namespace Parsed

open KScript.Parser

/-- **Recovery goes on and ends.**  For all tokens, however malformed:

- with any fuel beyond the number of tokens the script is read to its end, always with the same outcome;
- wherever the grammar of statements or that of expressions is entered, more fuel than there are tokens left
  does not change the outcome, and the grammar without a bound enters itself again without a bound;
- the cursor only moves forward, also in a parser that gives up;
- every declaration answers.  With something in front of it, it reads at least one token; if it is dropped,
  then its last complaint is about the place where it broke off, and reading has resumed after that place. -/
theorem recovery_progresses (tokens : List Token) (endLine : Nat) (reports : List Diagnostic) :
    let parsed := ofTokens tokens endLine reports
    (reports <+: parsed.reports ∧ ∀ fuel, tokens.length < fuel →
        Parser.program fuel ⟨tokens, endLine, reports⟩ = .ok parsed.program ⟨[], endLine, parsed.reports⟩)
      ∧ (∀ fuel (c : Cursor), c.rest.length < fuel →
          (∀ context, statementAt fuel context c = unbounded.statement context c
            ∧ declarationAt fuel context c = unbounded.declaration context c)
          ∧ ∀ inside entry, expressionAt inside fuel entry c
              = expressionAt inside (c.rest.length + 1) entry c)
      ∧ (∀ bound (c : Cursor), c.rest.length ≤ bound → ∀ context,
          unbounded.statement context c = statement unbounded bound context c
            ∧ unbounded.declaration context c = declaration unbounded bound context c)
      ∧ (∀ c : Cursor, (∀ context, Stops c.rest c (unbounded.statement context c))
          ∧ ∀ inside entry, Stops c.rest c (expressionAt inside (c.rest.length + 1) entry c))
      ∧ ∀ context c, ∃ o d, unbounded.declaration context c = .ok o d ∧ c.Advances d
          ∧ (c.rest ≠ [] → d.rest.length < c.rest.length) ∧ (o = none → Dropped c d) := by
  intro parsed
  refine ⟨?_, fun fuel c hc => ⟨fun context => ?_, fun inside entry => ?_⟩,
    fun bound c hc context => unbounded_eq hc context, fun c => ⟨fun context => ?_, fun inside entry => ?_⟩,
    declaration_progresses⟩
  · obtain ⟨items, ⟨rest, line, told⟩, hadvances, rfl, hends⟩ :=
      program_ends ⟨tokens, endLine, reports⟩
    obtain rfl : line = endLine := hadvances.endLine
    have hparsed : parsed = ⟨items, told⟩ := by
      simp only [parsed, ofTokens]
      rw [hends _ (Nat.lt_succ_self _)]
    rw [hparsed]
    exact ⟨hadvances.reports, hends⟩
  · have hstable := unbounded_stable fuel
    exact ⟨(hstable.statement context c hc).1, (hstable.declaration context c hc).1⟩
  · exact (expressionAt_stable inside _ fuel entry hc c (Nat.lt_succ_self _)).1.symm
  · have hstable := grammarAt_stable (c.rest.length + 1) _ (Nat.le_refl _)
    exact (hstable.statement context c (Nat.lt_succ_self _)).2
  · exact (expressionAt_stable inside _ _ entry (Nat.le_refl _) c (Nat.lt_succ_self _)).2

/-- A stray parenthesis, and a jump outside of every loop. -/
def brokenTokens : List Token :=
  [⟨.rightParen, ")", none, 1⟩, ⟨.semicolon, ";", none, 1⟩, ⟨.breakWord, "break", none, 2⟩,
   ⟨.semicolon, ";", none, 2⟩]

theorem recovery_progresses_brokenTokens :
    let c : Cursor := ⟨brokenTokens, 2, []⟩
    let d : Cursor := ⟨brokenTokens.drop 2, 2,
      [⟨1, .atToken ")", .missing .expression⟩]⟩
    (∀ fuel, 4 < fuel → Parser.program fuel c
        = .ok [] ⟨[], 2, d.reports ++ [⟨2, .atToken "break", .jumpOutsideLoop .breakLoop⟩]⟩)
      ∧ declarationAt 5 topLevel c = .ok none d ∧ Dropped c d := by
  intro c d
  obtain ⟨⟨-, hends⟩, hfuel, -, -, hanswers⟩ := recovery_progresses brokenTokens 2 []
  have hread : declarationAt 5 topLevel c = .ok none d := by cbv
  refine ⟨fun fuel h => (hends fuel h).trans (by cbv), hread, ?_⟩
  obtain ⟨o, e, hdeclared, -, -, hdropped⟩ := hanswers topLevel c
  rw [← ((hfuel 5 c (by decide)).1 topLevel).2, hread] at hdeclared
  cases hdeclared
  exact hdropped rfl

end Parsed

end KScript

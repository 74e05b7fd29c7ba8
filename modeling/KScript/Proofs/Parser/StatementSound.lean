import KScript.Proofs.Grammar.Statement
import KScript.Proofs.Parser.ExpressionSound

/-!
# Statements are read as they are spelled

The same for statements: if a script is read without a complaint, then the statements spell its tokens.
The statements of a block and the routines of a class are read one by one until nothing is left, so
here it matters too that each of them reads at least one token (`Shrinks`).
-/

namespace KScript.Parser

variable {β : Type} {n fuel : Nat} {c : Cursor} {grammar : Grammar} {context : Context}

/-- The statement is read off the tokens when `rest` follows: an `if` without an `else` takes one that
follows. -/
structure Taking (context : Context) (s : Item) (ts rest : List Token) : Prop where
  spells : s.Spells context ts
  closes : s.endsInIf = true → Avoids [.elseWord] rest

lemma Taking.of_closed {s : Item} {ts rest : List Token} (h : s.Spells context ts)
    (hclosed : s.endsInIf = false) : Taking context s ts rest :=
  ⟨h, fun hopen => absurd hopen (by rw [hclosed]; decide)⟩

/-- What is known of the grammar where it is entered again with fewer than `n` tokens. -/
structure Sound (n : Nat) (grammar : Grammar) : Prop where
  statement : ∀ context, Meets n (grammar.statement context) fun s used rest =>
    Taking context s used rest ∧ s.isDeclaration = false
  declaration : ∀ context, Meets n (grammar.declaration context) fun o used rest =>
    ∃ s, o = some s ∧ Taking context s used rest
  shrinks : ∀ context, Shrinks n (grammar.declaration context)

/-- With as much fuel as there are tokens an expression is read as it is spelled. -/
lemma expression_meets {inside : Bool} : Meets n (expression inside) (Reading inside 0) :=
  fun c _ => expressionAt_meets inside (c.rest.length + 1) .expression c (Nat.lt_succ_self _)

/-! ## Blocks -/

lemma blockOver_eq (c : Cursor) :
    blockOver c = .ok (c.rest.head?.all (·.kind = .rightBrace)) c := by
  match hrest : c.rest with
  | [] | t :: rest => simp [blockOver, nextIs, atEnd, hrest, bind, EStateM.bind, pure, EStateM.pure]

/-- At the end of a block, or with something in front. -/
lemma blockOver_meets {f : Bool → Parser β} {P Q : β → List Token → List Token → Prop}
    (hyes : Meets n (f true) P)
    (hno : ∀ c : Cursor, c.rest ≠ [] → c.rest.length < n → Result c Q (f false c)) :
    Meets n (blockOver >>= f) fun b used rest => P b used rest ∨ Q b used rest := by
  intro c hc
  rw [bind_ok (blockOver_eq c)]
  cases hover : c.rest.head?.all (·.kind = .rightBrace) with
  | true => exact (hyes c hc).imp fun b used rest _ h => Or.inl h
  | false =>
      refine (hno c ?_ hc).imp fun b used rest _ h => Or.inr h
      rintro hnil
      simp [hnil] at hover

/-- The declarations of a block spell its tokens. -/
lemma declarations_meets (h : Sound n grammar) : ∀ fuel, fuel ≤ n →
    Meets fuel (declarations grammar context fuel) fun items used _ =>
      Stmt.SpellsAll context items used
  | 0, _ => Meets.zero
  | fuel + 1, hn => by
      rw [declarations]
      refine Meets.imp (blockOver_meets Meets.pure fun c hne hc => Result.bind_shrinks hne hc
        ((h.declaration context).mono hn) (fun c hne hc => h.shrinks context c hne (by omega))
        (Q := fun o items used _ => ∃ more, Stmt.SpellsAll context more used
          ∧ items = o.toList ++ more) fun o => ?_) ?_
      · cases o with
        | none =>
            refine Meets.imp (declarations_meets h fuel (by omega)) ?_
            exact fun items used rest hall => ⟨items, hall, rfl⟩
        | some s =>
            refine Meets.imp (Meets.bind (declarations_meets h fuel (by omega)) fun more =>
              Meets.pure) ?_
            rintro items used rest ⟨more, u, v, rfl, hmore, rfl, rfl⟩
            rw [List.append_nil]
            exact ⟨more, hmore, rfl⟩
      · rintro items used rest (⟨rfl, rfl⟩ | ⟨_, u, v, rfl, ⟨s, rfl, hs⟩, more, hmore, rfl⟩)
        · rw [Stmt.SpellsAll]
        · exact ⟨u, v, rfl, hs.spells, hmore⟩

/-- The tokens of a block after its opening brace. -/
def SpellsBlock (context : Context) (body : List Item) (ts : List Token) : Prop :=
  ∃ mid right, ts = mid ++ [right] ∧ right.kind = .rightBrace ∧ Stmt.SpellsAll context body mid

lemma block_meets (h : Sound fuel grammar) :
    Meets fuel (block grammar fuel context) fun body used _ => SpellsBlock context body used := by
  rw [block]
  refine Meets.imp (Meets.bind (declarations_meets h fuel (Nat.le_refl fuel)) fun body =>
    Meets.expect fun right _ => Meets.pure) ?_
  rintro _ used rest ⟨body, mid, _, rfl, hbody, right, _, rfl, hright, rfl, rfl⟩
  exact ⟨mid, right, rfl, hright, hbody⟩

/-! ## Routines -/

/-- A getter without parameters and a setter with one are let pass. -/
lemma checkParams_meets {form : RoutineForm} {params : List Token} {f : Unit → Parser β}
    {Q : β → List Token → List Token → Prop} (hf : Meets n (f ()) Q) :
    Meets n (checkParams form params >>= f) fun b used rest =>
      (form = .getter → params.length = 0) ∧ (form = .setter → params.length = 1)
        ∧ Q b used rest := by
  unfold checkParams
  split
  · exact fun c hc => Meets.report hf c hc
  · refine Meets.imp (P := Q) (fun c hc => hf c hc) fun b used rest h => ⟨?_, ?_, h⟩
    · rintro ⟨⟩
    · exact fun _ => rfl
  · exact fun c hc => Meets.report hf c hc
  · next hsetter hgetter _ =>
      refine Meets.imp (P := Q) (fun c hc => hf c hc) fun b used rest h => ⟨?_, ?_, h⟩
      · rintro rfl
        cases params with
        | nil => rfl
        | cons p rest => exact absurd rfl (hgetter p rest rfl)
      · rintro rfl
        exact absurd rfl hsetter

/-- The parameters, and their spelling. -/
lemma params_meets : Meets fuel (listUpTo .parameters .rightParen fuel
    (expect .identifier .parameterName)) fun params used _ =>
      Commas (params.map ([·])) used ∧ params.length ≤ Listing.limit
        ∧ ∀ p ∈ params, p.kind = .identifier := by
  refine Meets.imp (Meets.listUpTo Meets.token) ?_
  rintro params used rest ⟨texts, hcommas, hlen, hall⟩
  have hparams : texts = params.map ([·]) ∧ ∀ p ∈ params, p.kind = .identifier := by
    clear hcommas hlen
    induction hall with
    | nil => exact ⟨rfl, fun p hp => absurd hp List.not_mem_nil⟩
    | cons h _ ih =>
        obtain ⟨_, rfl, hkind⟩ := h
        exact ⟨by rw [ih.1, List.map_cons], List.forall_mem_cons.mpr ⟨hkind, ih.2⟩⟩
  exact ⟨hparams.1 ▸ hcommas, hlen, hparams.2⟩

/-- The tokens of a routine from its name on. -/
def SpellsRoutine (context : Context) (r : Routine Item) (ts : List Token) : Prop :=
  ∃ head mid right, ts = head ++ (mid ++ [right]) ∧ right.kind = .rightBrace
    ∧ r.name.SpellsHead r.params head ∧ Stmt.SpellsAll { context with inLoop := false } r.body mid

lemma routine_meets (h : Sound fuel grammar) {form : RoutineForm} :
    Meets fuel (routine grammar fuel context form) fun r used _ =>
      SpellsRoutine context r used ∧ r.Fits form := by
  rw [routine]
  refine Meets.imp (Meets.expect fun name _ => Meets.expect fun left _ =>
    Meets.bind params_meets fun params => Meets.expect fun right _ => checkParams_meets
      (Meets.expect fun brace _ => Meets.bind (block_meets h) fun body => Meets.pure)) ?_
  rintro _ used rest ⟨name, _, rfl, hname, left, _, rfl, hleft, params, mid, _, rfl,
    ⟨hparams, hlen, hkinds⟩, right, _, rfl, hright, hgetter, hsetter, brace, _, rfl, hbrace, body,
    _, _, rfl, ⟨inner, close, rfl, hclose, hbody⟩, rfl, rfl⟩
  refine ⟨⟨name :: left :: (mid ++ [right, brace]), inner, close, by simp, hclose,
    ⟨left, mid, right, brace, rfl, hleft, hright, hbrace, hparams⟩, hbody⟩,
    hname, hkinds, hlen, hgetter, hsetter⟩

lemma routine_shrinks (h : Sound fuel grammar) {form : RoutineForm} :
    Shrinks (fuel + 1) (routine grammar fuel context form) := by
  rw [routine]
  exact Shrinks.expect fun name _ => Meets.expect fun left _ => Meets.bind params_meets
    fun params => Meets.expect fun right _ => checkParams_meets (Meets.expect fun brace _ =>
      Meets.bind (block_meets h) fun body => Meets.pure)

/-! ## Classes -/

/-- The form of the routines of a group. -/
def Group.form : Group → RoutineForm
  | .getters => .getter
  | .setters => .setter
  | _ => .method

/-- The tokens of a routine in a class body. -/
def SpellsMember (context : Context) (m : Group × Routine Item) (ts : List Token) : Prop :=
  ∃ mark body, ts = mark ++ body ∧ m.1.Marks mark ∧ SpellsRoutine context m.2 body
    ∧ m.2.Fits m.1.form

/-- A routine after the word that puts it into its group. -/
lemma marked_meets (h : Sound fuel grammar) {word : Token}
    (hword : word.kind ∈ [Kind.staticWord, .getWord, .setWord]) :
    Meets fuel (match word.kind with
      | .staticWord => routine grammar fuel context .method >>= fun r => Pure.pure (Group.statics, r)
      | .getWord => routine grammar fuel context .getter >>= fun r => Pure.pure (Group.getters, r)
      | _ => routine grammar fuel context .setter >>= fun r => Pure.pure (Group.setters, r))
      fun m used _ => m.1.Marks [word] ∧ SpellsRoutine context m.2 used ∧ m.2.Fits m.1.form := by
  simp only [List.mem_cons, List.not_mem_nil, or_false] at hword
  rcases hword with hw | hw | hw <;> simp only [hw]
  all_goals
    refine Meets.imp (Meets.bind (routine_meets h) fun r => Meets.pure) ?_
    rintro _ used rest ⟨r, u, _, rfl, ⟨hr, hfits⟩, rfl, rfl⟩
    rw [List.append_nil]
    exact ⟨⟨word, rfl, hw⟩, hr, hfits⟩

lemma member_meets (h : Sound fuel grammar) :
    Meets fuel (member grammar fuel context) fun m used _ => SpellsMember context m used := by
  rw [member]
  refine Meets.imp (Meets.option (fun word hword => marked_meets h hword)
    (Meets.bind (routine_meets h) fun r => Meets.pure)) ?_
  rintro m used rest (⟨word, v, rfl, -, hmark, hr, hfits⟩
    | ⟨-, r, u, _, rfl, ⟨hr, hfits⟩, rfl, rfl⟩)
  · exact ⟨[word], v, rfl, hmark, hr, hfits⟩
  · exact ⟨[], u, by simp, rfl, hr, hfits⟩

lemma member_shrinks (h : Sound fuel grammar) :
    Shrinks (fuel + 1) (member grammar fuel context) := by
  rw [member]
  exact Shrinks.accept (fun word hword => marked_meets h hword)
    (Shrinks.andThen (routine_shrinks h) fun r => Meets.pure)

/-- The routines of a class body spell its tokens, each in its group. -/
lemma members_meets (h : Sound n grammar) : ∀ fuel, fuel ≤ n →
    Meets fuel (members grammar context n fuel) fun all used _ =>
      ∃ texts : List (Group × List Token), used = (texts.map Prod.snd).flatten
        ∧ List.Forall₂ (fun m text => m.1 = text.1 ∧ SpellsMember context m text.2) all texts
  | 0, _ => Meets.zero
  | fuel + 1, hn => by
      rw [members]
      refine Meets.imp (blockOver_meets Meets.pure fun c hne hc => Result.bind_shrinks hne hc
        ((member_meets h).mono hn) (fun c hne hc => member_shrinks h c hne (by omega)) fun m =>
          Meets.bind (members_meets h fuel (by omega)) fun more => Meets.pure) ?_
      rintro all used rest (⟨rfl, rfl⟩ | ⟨m, u, _, rfl, hm, more, v, _, rfl, ⟨texts, rfl, hall⟩,
        rfl, rfl⟩)
      · exact ⟨[], rfl, .nil⟩
      · exact ⟨(m.1, u) :: texts, by simp, .cons ⟨rfl, hm⟩ hall⟩

lemma ofGroup_cons {α : Type} {group : Group} {m : Group × α} {all : List (Group × α)} :
    ofGroup group (m :: all) = if m.1 = group then m.2 :: ofGroup group all else ofGroup group all := by
  by_cases h : m.1 = group <;> simp [ofGroup, h]

/-- The routines of one group are spelled by the texts of that group. -/
lemma spellsRoutines_of_members (group : Group) {all : List (Group × Routine Item)}
    {texts : List (Group × List Token)}
    (h : List.Forall₂ (fun m text => m.1 = text.1 ∧ SpellsMember context m text.2) all texts) :
    Stmt.SpellsRoutines context group (ofGroup group all) (ofGroup group texts)
      ∧ ∀ r ∈ ofGroup group all, r.Fits group.form := by
  induction h with
  | nil => exact ⟨rfl, fun r hr => absurd hr List.not_mem_nil⟩
  | @cons m text all texts hm _ ih =>
      obtain ⟨hgroup, mark, body, htext, hmark, ⟨head, mid, right, rfl, hright, hhead, hbody⟩,
        hfits⟩ := hm
      rw [ofGroup_cons, ofGroup_cons, ← hgroup]
      split
      · next hg =>
          subst hg
          refine ⟨?_, List.forall_mem_cons.mpr ⟨hfits, ih.2⟩⟩
          rw [htext]
          exact ⟨mark, head, mid, right, _, rfl, hmark, hright, hhead, hbody, ih.1⟩
      · exact ih

/-- A class from the brace of its body on. -/
lemma classBody_meets (h : Sound fuel grammar) {word name : Token} (hword : word.kind = .classWord)
    (superclass : Option (Reference Unit)) :
    Meets fuel (expect .leftBrace .classBody >>= fun _ =>
      members grammar { context with inClass := true } fuel fuel >>= fun all =>
      expect .rightBrace .classEnd >>= fun _ =>
      Pure.pure (Stmt.classDecl name superclass (ofGroup .methods all) (ofGroup .statics all)
        (ofGroup .getters all) (ofGroup .setters all))) fun s used rest =>
      ∀ parent, name.kind = .identifier → (∀ ref ∈ superclass, ref.name.kind = .identifier) →
        Reference.SpellsSuperclass superclass parent →
        Taking context s (word :: name :: (parent ++ used)) rest := by
  refine Meets.imp (Meets.expect fun left _ => Meets.bind
    (members_meets h fuel (Nat.le_refl fuel)) fun all => Meets.expect fun right _ => Meets.pure) ?_
  rintro _ used rest ⟨left, _, rfl, hleft, all, _, _, rfl, ⟨texts, rfl, hall⟩, right, _, rfl,
    hright, rfl, rfl⟩ parent hname hsuper hparent
  obtain ⟨hm, hm'⟩ := spellsRoutines_of_members .methods hall
  obtain ⟨hs, hs'⟩ := spellsRoutines_of_members .statics hall
  obtain ⟨hg, hg'⟩ := spellsRoutines_of_members .getters hall
  obtain ⟨ht, ht'⟩ := spellsRoutines_of_members .setters hall
  exact .of_closed ⟨word, parent, left, texts, right, rfl, hword, hleft, hright, hparent, hm, hs, hg,
    ht, hname, hsuper, hm', hs', hg', ht'⟩ rfl

lemma classRest_meets (h : Sound fuel grammar) {word : Token} (hword : word.kind = .classWord) :
    Meets fuel (classRest grammar fuel context) fun s used rest =>
      Taking context s (word :: used) rest := by
  rw [classRest]
  refine Meets.imp (Meets.expect fun name _ => Meets.option
    (fun arrow _ => Meets.bind (Meets.map Meets.token) fun superclass =>
      classBody_meets h hword superclass)
    (Meets.bind Meets.pure fun superclass => classBody_meets h hword superclass)) ?_
  rintro s used rest ⟨name, _, rfl, hname, ⟨arrow, _, rfl, harrow, _, _, v, rfl,
    ⟨ref, rfl, rfl, href⟩, hs⟩ | ⟨-, _, _, v, rfl, ⟨rfl, rfl⟩, hs⟩⟩
  · refine hs [arrow, ref] hname ?_ ⟨arrow, rfl, List.mem_singleton.mp harrow⟩
    rintro _ ⟨⟩
    exact href
  · exact hs [] hname (fun ref href => absurd href (by simp)) rfl

/-! ## Statements -/

/-- A declaration of a variable after its keyword. -/
lemma varRest_meets : Meets n (varRest context) fun r used _ =>
    r.1.SpellsVar context.inClass r.2 used ∧ r.1.kind = .identifier := by
  rw [varRest]
  refine Meets.imp (Meets.expect fun name _ => Meets.option
    (fun equals _ => Meets.bind (Meets.map expression_meets) fun value =>
      Meets.expect fun semicolon _ => Meets.pure)
    (Meets.bind Meets.pure fun value => Meets.expect fun semicolon _ => Meets.pure)) ?_
  rintro _ used rest ⟨name, _, rfl, hname, ⟨equals, _, rfl, hequals, _, a, _, rfl,
    ⟨e, rfl, he⟩, semicolon, _, rfl, hsemi, rfl, rfl⟩ | ⟨-, _, _, _, rfl, ⟨rfl, rfl⟩, semicolon, _,
    rfl, hsemi, rfl, rfl⟩⟩
  · exact ⟨⟨equals, a, semicolon, rfl, List.mem_singleton.mp hequals, hsemi, he.spells⟩, hname⟩
  · exact ⟨⟨semicolon, rfl, hsemi⟩, hname⟩

/-- A condition in parentheses. -/
lemma condition_meets {opening : Expected} : Meets n (condition opening context) fun e used _ =>
    ∃ left a right, used = left :: (a ++ [right]) ∧ left.kind = .leftParen
      ∧ right.kind = .rightParen ∧ e.Spells context.inClass a := by
  rw [condition]
  refine Meets.imp (Meets.expect fun left _ => Meets.bind expression_meets fun e =>
    Meets.expect fun right _ => Meets.pure) ?_
  rintro _ used rest ⟨left, _, rfl, hleft, e, a, _, rfl, he, right, _, rfl, hright, rfl, rfl⟩
  exact ⟨left, a, right, rfl, hleft, hright, he.spells⟩

/-- An expression with its semicolon. -/
lemma valueRest_meets : Meets n (valueRest context) fun e used _ =>
    ∃ a semicolon, used = a ++ [semicolon] ∧ semicolon.kind = .semicolon
      ∧ e.Spells context.inClass a := by
  rw [valueRest]
  refine Meets.imp (Meets.bind expression_meets fun e => Meets.expect fun semicolon _ =>
    Meets.pure) ?_
  rintro _ used rest ⟨e, a, _, rfl, he, semicolon, _, rfl, hsemi, rfl, rfl⟩
  exact ⟨a, semicolon, rfl, hsemi, he.spells⟩

/-- An expression that may be left out. -/
lemma expressionUnless_meets {close : Kind} :
    Meets n (expressionUnless close context) fun o used _ =>
      Expr.SpellsOption context.inClass o used := by
  rw [expressionUnless]
  refine Meets.imp (Meets.nextIs Meets.pure (Meets.bind expression_meets fun e => Meets.pure)) ?_
  rintro _ used rest (⟨rfl, rfl⟩ | ⟨-, e, a, _, rfl, he, rfl, rfl⟩)
  · exact rfl
  · rw [List.append_nil]
    exact he.spells

/-- The first clause of a `for` loop. -/
lemma forStart_meets : Meets n (forStart context) fun start used _ =>
    ForStart.Spells context.inClass start used ∧ ForStart.Fits start := by
  rw [forStart]
  refine Meets.imp (Meets.option (P := fun t start used _ =>
    ForStart.Spells context.inClass start (t :: used) ∧ ForStart.Fits start) (fun t ht => ?_)
    (Meets.bind valueRest_meets fun e => Meets.pure)) ?_
  · dsimp only
    split
    · next hsemi =>
        refine Meets.imp Meets.pure ?_
        rintro _ _ rest ⟨rfl, rfl⟩
        exact ⟨⟨t, rfl, hsemi⟩, trivial⟩
    · next hsemi =>
        refine Meets.imp (Meets.bind varRest_meets fun r => Meets.pure) ?_
        rintro _ used rest ⟨⟨name, value⟩, b, _, rfl, ⟨hvar, hname⟩, rfl, rfl⟩
        rw [List.append_nil]
        exact ⟨⟨t, b, rfl, (List.mem_pair.mp ht).resolve_left hsemi, hvar⟩, hname⟩
  · rintro start used rest (⟨t, v, rfl, -, h⟩ | ⟨-, e, _, _, rfl, ⟨a, semicolon, rfl, hsemi, he⟩,
      rfl, rfl⟩)
    · exact h
    · exact ⟨⟨a, semicolon, by simp, hsemi, he⟩, trivial⟩

/-- What a statement after its first token comes to. -/
def Statement (context : Context) (word : Token) (s : Item) (used rest : List Token) : Prop :=
  Taking context s (word :: used) rest ∧ s.isDeclaration = false

lemma branchRest_meets (h : Sound fuel grammar) {word : Token} (hword : word.kind = .ifWord) :
    Meets fuel (branchRest grammar context) (Statement context word) := by
  rw [branchRest]
  refine Meets.imp (Meets.bind condition_meets fun test => Meets.bind (h.statement context)
    fun yes => Meets.option (fun other _ => Meets.bind (h.statement context) fun no => Meets.pure)
      Meets.pure) ?_
  rintro s used rest ⟨test, _, _, rfl, ⟨left, a, right, rfl, hleft, hright, htest⟩, yes, b, _, rfl,
    ⟨hyes, hdecl⟩, ⟨other, _, rfl, hother, no, c, _, rfl, ⟨hno, hdecl'⟩, rfl, rfl⟩
    | ⟨havoid, rfl, rfl⟩⟩
  · -- an `else` follows, so the first branch cannot have taken it
    have hclosed : yes.endsInIf = false := by
      by_contra hopen
      exact hyes.closes (by simpa using hopen) other rfl hother
    refine ⟨⟨?_, hno.closes⟩, rfl⟩
    exact ⟨word, left, a, right, b, other :: c, by simp, hword, hleft, hright, htest, hyes.spells,
      ⟨other, c, rfl, List.mem_singleton.mp hother, hno.spells⟩, hdecl,
      fun s hs => by cases hs; exact ⟨hdecl', hclosed⟩⟩
  · refine ⟨⟨?_, fun _ => havoid⟩, rfl⟩
    exact ⟨word, left, a, right, b, [], by simp, hword, hleft, hright, htest, hyes.spells, rfl, hdecl,
      fun s hs => by cases hs⟩

lemma loopRest_meets (h : Sound fuel grammar) {word : Token} (hword : word.kind = .whileWord) :
    Meets fuel (loopRest grammar context) (Statement context word) := by
  rw [loopRest]
  refine Meets.imp (Meets.bind condition_meets fun test => Meets.bind
    (h.statement { context with inLoop := true }) fun body => Meets.pure) ?_
  rintro _ used rest ⟨test, _, _, rfl, ⟨left, a, right, rfl, hleft, hright, htest⟩, body, b, _, rfl,
    ⟨hbody, hdecl⟩, rfl, rfl⟩
  refine ⟨⟨?_, hbody.closes⟩, rfl⟩
  exact ⟨word, left, a, right, b, by simp, hword, hleft, hright, htest, hbody.spells, hdecl⟩

lemma forRest_meets (h : Sound fuel grammar) {word : Token} (hword : word.kind = .forWord) :
    Meets fuel (forRest grammar context) (Statement context word) := by
  rw [forRest]
  refine Meets.imp (Meets.expect fun left _ => Meets.bind forStart_meets fun start =>
    Meets.bind expressionUnless_meets fun test => Meets.expect fun semicolon _ =>
    Meets.bind expressionUnless_meets fun after => Meets.expect fun right _ =>
    Meets.bind (h.statement { context with inLoop := true }) fun body => Meets.pure) ?_
  rintro _ used rest ⟨left, _, rfl, hleft, start, a, _, rfl, ⟨hstart, hfits⟩, test, b, _, rfl, htest,
    semicolon, _, rfl, hsemi, after, c, _, rfl, hafter, right, _, rfl, hright, body, d, _, rfl,
    ⟨hbody, hdecl⟩, rfl, rfl⟩
  refine ⟨⟨⟨word, left, a, b, semicolon, c, right, d, by simp, hword, hleft, hsemi, hright, hstart, ?_,
    hafter, hbody.spells, hfits, hdecl⟩, hbody.closes⟩, rfl⟩
  cases test with
  | none => exact Or.inr ⟨htest, rfl⟩
  | some e => exact Or.inl htest

lemma exitRest_meets {word : Token} (hword : word.kind = .exitWord) :
    Meets n (exitRest word context) (Statement context word) := by
  rw [exitRest]
  refine Meets.imp (Meets.option (fun semicolon _ => Meets.pure)
    (Meets.bind valueRest_meets fun e => Meets.pure)) ?_
  rintro _ used rest (⟨semicolon, _, rfl, hsemi, rfl, rfl⟩ | ⟨-, e, _, _, rfl,
    ⟨a, semicolon, rfl, hsemi, he⟩, rfl, rfl⟩)
  · exact ⟨.of_closed ⟨[], semicolon, rfl, List.mem_singleton.mp hsemi, Or.inr ⟨rfl, rfl⟩, hword⟩ rfl,
      rfl⟩
  · exact ⟨.of_closed ⟨a, semicolon, by simp, hsemi, Or.inl he, hword⟩ rfl, rfl⟩

lemma stepRest_meets {word : Token} (hword : word.kind ∈ [Kind.incWord, .decWord]) :
    Meets n (stepRest word) (Statement context word) := by
  rw [stepRest]
  refine Meets.imp (Meets.expect fun name _ => Meets.expect fun semicolon _ => Meets.pure) ?_
  rintro _ used rest ⟨name, _, rfl, hname, semicolon, _, rfl, hsemi, rfl, rfl⟩
  refine ⟨.of_closed ⟨word, semicolon, rfl, ?_, hsemi, hname⟩ rfl, rfl⟩
  rcases List.mem_pair.mp hword with h | h <;> simp [directionOf, Direction.kind, h]

lemma returnRest_meets {word : Token} (hword : word.kind = .returnWord) :
    Meets n (returnRest word context) (Statement context word) := by
  rw [returnRest]
  refine Meets.imp (Meets.bind expressionUnless_meets fun value => Meets.expect fun semicolon _ =>
    Meets.pure) ?_
  rintro _ used rest ⟨value, a, _, rfl, hvalue, semicolon, _, rfl, hsemi, rfl, rfl⟩
  exact ⟨.of_closed ⟨a, semicolon, rfl, hsemi, hvalue, hword⟩ rfl, rfl⟩

lemma jumpRest_meets {word : Token} {j : Jump} (hword : word.kind = j.kind) :
    Meets n (jumpRest word j context) (Statement context word) := by
  rw [jumpRest]
  split
  · next hloop =>
      refine Meets.imp (Meets.expect fun semicolon _ => Meets.pure) ?_
      rintro _ used rest ⟨semicolon, _, rfl, hsemi, rfl, rfl⟩
      exact ⟨.of_closed ⟨semicolon, rfl, hsemi, hloop, hword⟩ rfl, rfl⟩
  · exact Meets.fail

/-- A statement that has a word of its own, after that word. -/
lemma keyword_meets (h : Sound fuel grammar) {t : Token} (ht : t.kind ∈ statementKinds) :
    Meets fuel (match t.kind with
      | .ifWord => branchRest grammar context
      | .whileWord => loopRest grammar context
      | .forWord => forRest grammar context
      | .exitWord => exitRest t context
      | .returnWord => returnRest t context
      | .breakWord => jumpRest t .breakLoop context
      | .continueWord => jumpRest t .continueLoop context
      | .leftBrace => block grammar fuel context >>= fun body => Pure.pure (Stmt.block body)
      | _ => stepRest t) (Statement context t) := by
  generalize hkind : t.kind = kind at ht
  cases kind
  case ifWord => exact branchRest_meets h hkind
  case whileWord => exact loopRest_meets h hkind
  case forWord => exact forRest_meets h hkind
  case exitWord => exact exitRest_meets hkind
  case returnWord => exact returnRest_meets hkind
  case breakWord => exact jumpRest_meets hkind
  case continueWord => exact jumpRest_meets hkind
  case leftBrace =>
    refine Meets.imp (Meets.bind (block_meets h) fun body => Meets.pure) ?_
    rintro _ used rest ⟨body, _, _, rfl, ⟨mid, right, rfl, hright, hbody⟩, rfl, rfl⟩
    exact ⟨.of_closed ⟨t, mid, right, by simp, hkind, hright, hbody⟩ rfl, rfl⟩
  case incWord => exact stepRest_meets (by simp [hkind])
  case decWord => exact stepRest_meets (by simp [hkind])
  all_goals exact absurd ht (by decide)

/-- An expression that stands as a statement does not begin with a counting word. -/
lemma beginsWithStep_of_avoids {inside : Bool} {e : Tree} {a rest : List Token}
    (he : e.Spells inside a) (h : Avoids statementKinds (a ++ rest)) : e.beginsWithStep = false := by
  obtain ⟨t, tail, rfl, ht⟩ := begins_of_spells he
  by_contra hne
  have hmem := ht.step.mp (by simpa using hne)
  refine h t rfl ?_
  rcases List.mem_pair.mp hmem with hk | hk <;> simp [hk, statementKinds]

lemma statement_meets (h : Sound fuel grammar) :
    Meets (fuel + 1) (statement grammar fuel context) fun s used rest =>
      Taking context s used rest ∧ s.isDeclaration = false := by
  rw [statement]
  refine Meets.imp (Meets.accept (fun t ht => keyword_meets h ht)
    (Meets.bind valueRest_meets fun e => Meets.pure)) ?_
  rintro s used rest (⟨t, v, rfl, -, h⟩ | ⟨havoid, e, _, _, rfl, ⟨a, semicolon, rfl, hsemi, he⟩, rfl,
    rfl⟩)
  · exact h
  · refine ⟨.of_closed ⟨a, semicolon, by simp, hsemi, he, ?_⟩ rfl, rfl⟩
    rw [List.append_nil, List.append_assoc] at havoid
    exact beginsWithStep_of_avoids he havoid

/-- A declaration, after its keyword. -/
lemma declared_meets (h : Sound fuel grammar) {t : Token}
    (ht : t.kind ∈ [Kind.classWord, .subWord, .varWord]) :
    Meets fuel (match t.kind with
      | .classWord => classRest grammar fuel context
      | .subWord => routine grammar fuel context .subroutine >>= fun r => Pure.pure (Stmt.routine r)
      | _ => varRest context >>= fun r => match r with
        | (name, value) => Pure.pure (Stmt.var name value)) fun s used rest =>
      Taking context s (t :: used) rest := by
  generalize hkind : t.kind = kind at ht
  cases kind
  case classWord => exact classRest_meets h hkind
  case subWord =>
    refine Meets.imp (Meets.bind (routine_meets h) fun r => Meets.pure) ?_
    rintro _ used rest ⟨⟨name, params, body⟩, _, _, rfl,
      ⟨⟨head, mid, right, rfl, hright, hhead, hbody⟩, hfits⟩, rfl, rfl⟩
    exact .of_closed ⟨t, head, mid, right, by simp, hkind, hright, hhead, hbody, hfits⟩ rfl
  case varWord =>
    refine Meets.imp (Meets.bind varRest_meets fun r => Meets.pure) ?_
    rintro _ used rest ⟨⟨name, value⟩, b, _, rfl, ⟨hvar, hname⟩, rfl, rfl⟩
    rw [List.append_nil]
    exact .of_closed ⟨t, b, rfl, hkind, hvar, hname⟩ rfl
  all_goals exact absurd ht (by decide)

lemma declarationOrStatement_meets (h : Sound fuel grammar) (context : Context) :
    Meets (fuel + 1) (declarationOrStatement grammar fuel context) (Taking context) := by
  rw [declarationOrStatement]
  refine Meets.imp (Meets.accept (fun t ht => declared_meets h ht) (statement_meets h)) ?_
  rintro s used rest (⟨t, v, rfl, -, h⟩ | ⟨-, h, -⟩)
  · exact h
  · exact h

/-- A declaration or statement that was read has read something: its keyword, or at least its
semicolon. -/
lemma declarationOrStatement_shrinks (h : Sound fuel grammar) :
    Shrinks (fuel + 1) (declarationOrStatement grammar fuel context) := by
  rw [declarationOrStatement]
  refine Shrinks.accept (fun t ht => declared_meets h ht) ?_
  dsimp only
  rw [statement]
  refine Shrinks.accept (fun t ht => keyword_meets h ht) (Shrinks.andThen ?_ fun e => Meets.pure)
  rw [valueRest]
  exact Shrinks.bind expression_meets (fun e => Meets.expect fun semicolon _ => Meets.pure)
    fun e => Shrinks.expect fun semicolon _ => Meets.pure

/-! ## Recovery and whole scripts -/

lemma resumeAfter_suffix : ∀ (last : Token) (rest : List Token),
    ∃ passed, rest = passed ++ resumeAfter last rest
  | _, [] => ⟨[], rfl⟩
  | last, t :: rest => by
      rw [resumeAfter]
      split
      · exact ⟨[], rfl⟩
      · obtain ⟨passed, h⟩ := resumeAfter_suffix t rest
        exact ⟨t :: passed, by rw [List.cons_append, ← h]⟩

lemma resume_suffix (rest : List Token) : ∃ passed, rest = passed ++ resume rest := by
  match rest with
  | [] => exact ⟨[], rfl⟩
  | t :: rest =>
      obtain ⟨passed, h⟩ := resumeAfter_suffix t rest
      exact ⟨t :: passed, by rw [resume, List.cons_append, ← h]⟩

/-- Something is passed over, unless nothing is left. -/
lemma length_resume_le (rest : List Token) : (resume rest).length ≤ rest.length - 1 := by
  match rest with
  | [] => exact Nat.le_refl 0
  | t :: rest =>
      obtain ⟨passed, h⟩ := resumeAfter_suffix t rest
      have hlen := congrArg List.length h
      rw [List.length_append] at hlen
      rw [resume, List.length_cons]
      omega

lemma declaration_meets (h : Sound fuel grammar) :
    Meets (fuel + 1) (declaration grammar fuel context) fun o used rest =>
      ∃ s, o = some s ∧ Taking context s used rest := by
  intro c hc
  have hr := declarationOrStatement_meets h context c hc
  unfold declaration
  match hd : declarationOrStatement grammar fuel context c with
  | .ok item d =>
      rw [hd] at hr
      obtain ⟨used, new, hrest, hnew, hs⟩ := hr
      exact ⟨used, new, hrest, hnew, fun h0 => ⟨item, rfl, hs h0⟩⟩
  | .error _ d =>
      -- a declaration that is dropped has been complained about
      rw [hd] at hr
      obtain ⟨used, new, hrest, hnew, hne⟩ := hr
      obtain ⟨passed, hpassed⟩ := resume_suffix d.rest
      refine ⟨used ++ passed, new, ?_, hnew, fun h0 => absurd h0 hne⟩
      rw [hrest, List.append_assoc]
      exact congrArg (used ++ ·) hpassed

lemma declaration_shrinks (h : Sound fuel grammar) :
    Shrinks (fuel + 1) (declaration grammar fuel context) := by
  intro c hne hc o d hd
  unfold declaration at hd
  split at hd
  · next item _ hok =>
      cases hd
      exact declarationOrStatement_shrinks h c hne hc item d hok
  · next d' herror =>
      cases hd
      have hr := declarationOrStatement_meets h context c hc
      rw [herror] at hr
      obtain ⟨used, new, hrest, -⟩ := hr
      have hlen := congrArg List.length hrest
      have hpos := List.length_pos_iff.mpr hne
      have hresume := length_resume_le d'.rest
      rw [List.length_append] at hlen
      dsimp only
      omega

/-- **The grammar of statements is sound**, however often it is entered again. -/
theorem sound : ∀ n, Sound n ⟨statementAt n, declarationAt n⟩
  | 0 => ⟨fun _ => Meets.zero, fun _ => Meets.zero, fun _ _ _ h => absurd h (Nat.not_lt_zero _)⟩
  | n + 1 =>
      ⟨fun context => by simpa only [statementAt] using statement_meets (sound n),
        fun context => by simpa only [declarationAt] using declaration_meets (sound n),
        fun context => by simpa only [declarationAt] using declaration_shrinks (sound n)⟩

/-- At the end of the script, or with something in front. -/
lemma atEnd_meets {f : Bool → Parser β} {P Q : β → List Token → List Token → Prop}
    (hyes : Meets n (f true) P)
    (hno : ∀ c : Cursor, c.rest ≠ [] → c.rest.length < n → Result c Q (f false c)) :
    Meets n (atEnd >>= f) fun b used rest => rest = [] ∧ P b used rest ∨ Q b used rest := by
  intro c hc
  have hend : atEnd c = .ok c.rest.isEmpty c := rfl
  rw [bind_ok hend]
  cases hempty : c.rest.isEmpty with
  | true =>
      refine (hyes c hc).imp fun b used rest hrest h => Or.inl ⟨?_, h⟩
      rw [List.isEmpty_iff.mp hempty] at hrest
      exact (List.append_eq_nil_iff.mp hrest.symm).2
  | false =>
      refine (hno c ?_ hc).imp fun b used rest _ h => Or.inr h
      rintro hnil
      simp [hnil] at hempty

/-- A script is read to its end, and its statements spell its tokens. -/
lemma program_meets : ∀ fuel, Meets fuel (program fuel) fun items used rest =>
    rest = [] ∧ Stmt.SpellsAll topLevel items used
  | 0 => Meets.zero
  | fuel + 1 => by
      rw [program]
      have h := sound (fuel + 1)
      refine Meets.imp (atEnd_meets Meets.pure fun c hne hc => Result.bind_shrinks hne hc
        (h.declaration topLevel) (h.shrinks topLevel)
        (Q := fun o items used rest => rest = [] ∧ ∃ more, Stmt.SpellsAll topLevel more used
          ∧ items = o.toList ++ more) fun o => ?_) ?_
      · cases o with
        | none =>
            refine Meets.imp (program_meets fuel) ?_
            exact fun items used rest ⟨hrest, hall⟩ => ⟨hrest, items, hall, rfl⟩
        | some s =>
            refine Meets.imp (Meets.bind (program_meets fuel) fun more => Meets.pure) ?_
            rintro items used rest ⟨more, u, v, rfl, ⟨hrest, hmore⟩, rfl, rfl⟩
            rw [List.append_nil]
            exact ⟨hrest, more, hmore, rfl⟩
      · rintro items used rest (⟨hrest, rfl, rfl⟩ | ⟨_, u, v, rfl, ⟨s, rfl, hs⟩, hrest, more, hmore,
          rfl⟩)
        · exact ⟨hrest, rfl⟩
        · exact ⟨hrest, u, v, rfl, hs.spells, hmore⟩

end KScript.Parser

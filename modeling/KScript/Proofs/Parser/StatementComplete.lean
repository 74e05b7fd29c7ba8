import KScript.Proofs.Parser.ExpressionComplete
import KScript.Proofs.Parser.StatementSound

/-!
# Every spelling of a statement is read

Tokens that spell a statement are read back as that statement, unless an `else` follows that an `if` at
its end would take.  Where statements are listed, the next one begins with a token that is neither an
`else` nor a closing brace (`begins_of_stmt_spells`), so that each of them ends where it should.
-/

namespace KScript.Parser

variable {β : Type} {n fuel : Nat} {grammar : Grammar} {context : Context} {s : Item}
  {ts rest : List Token}

/-- What is known of the grammar where it is entered again with fewer than `n` tokens. -/
structure Complete (n : Nat) (grammar : Grammar) : Prop where
  statement : ∀ context, Completes n (grammar.statement context) fun s ts rest =>
    Taking context s ts rest ∧ s.isDeclaration = false
  declaration : ∀ context, Completes n (grammar.declaration context) fun o ts rest =>
    ∃ s, o = some s ∧ Taking context s ts rest

/-! ## Expressions in statements -/

/-- An expression is read up to a token that goes on with no expression. -/
lemma expression_reads {inside : Bool} {e : Tree} {t : Token} (he : e.Spells inside ts)
    (ht : t.kind.rung = none) : Reads (expression inside) e ts (t :: rest) := by
  intro endLine reports
  exact expressionAt_completes inside _ .expression e ts (t :: rest)
    ⟨he, Nat.zero_le _, ends_of_rung_none ht, fun _ => ends_of_rung_none ht⟩
    (Nat.lt_succ_self _) endLine reports

/-- An expression begins with no token that closes something. -/
lemma avoids_of_spells {inside : Bool} {e : Tree} {kinds : List Kind} (he : e.Spells inside ts)
    (hkinds : ∀ kind ∈ firstKinds, kind ∉ kinds) : Avoids kinds (ts ++ rest) := by
  obtain ⟨t, tail, rfl, ht⟩ := begins_of_spells he
  exact avoids_cons.mpr (hkinds _ ht.mem)

lemma valueRest_reads {e : Tree} {semicolon : Token} (he : e.Spells context.inClass ts)
    (hsemi : semicolon.kind = .semicolon) :
    Reads (valueRest context) e (ts ++ [semicolon]) rest := by
  rw [valueRest]
  exact Reads.bind (expression_reads he (by rw [hsemi]; rfl)) (Reads.expect hsemi Reads.pure)

lemma condition_reads {opening : Expected} {e : Tree} {left right : Token}
    (he : e.Spells context.inClass ts) (hleft : left.kind = .leftParen)
    (hright : right.kind = .rightParen) :
    Reads (condition opening context) e (left :: (ts ++ [right])) rest := by
  rw [condition]
  exact Reads.expect hleft (Reads.bind (expression_reads he (by rw [hright]; rfl))
    (Reads.expect hright Reads.pure))

/-- An expression that may be left out is read up to its closing token. -/
lemma expressionUnless_reads {close : Kind} {value : Option Tree} {t : Token} (ht : t.kind = close)
    (hclose : close ∉ firstKinds ∧ close.rung = none)
    (h : Expr.SpellsOption context.inClass value ts) :
    Reads (expressionUnless close context) value ts (t :: rest) := by
  rw [expressionUnless]
  cases value with
  | none =>
      obtain rfl := h
      exact Reads.nextIs rfl ht Reads.pure
  | some e =>
      have havoid : Avoids [close] (ts ++ t :: rest) := by
        refine avoids_of_spells h fun kind hkind hmem => hclose.1 ?_
        rwa [← List.mem_singleton.mp hmem]
      exact Reads.nextIsNot havoid
        (Reads.last (expression_reads h (by rw [ht]; exact hclose.2)) Reads.pure)

lemma varRest_reads {name : Token} {value : Option Tree} (hname : name.kind = .identifier)
    (h : name.SpellsVar context.inClass value ts) : Reads (varRest context) (name, value) ts rest := by
  rw [varRest]
  cases value with
  | none =>
      obtain ⟨semicolon, rfl, hsemi⟩ := h
      exact Reads.expect hname (Reads.absent (avoids_cons.mpr (by simp [hsemi]))
        (Reads.bind (u := []) Reads.pure (Reads.expect hsemi Reads.pure)))
  | some e =>
      obtain ⟨equals, a, semicolon, rfl, hequals, hsemi, he⟩ := h
      have hreads : Reads (some <$> expression context.inClass) (some e) a ([semicolon] ++ rest) := by
        rw [← bind_pure_comp]
        exact Reads.last (expression_reads he (by rw [hsemi]; rfl)) Reads.pure
      exact Reads.expect hname (Reads.found (by simp [hequals])
        (Reads.bind hreads (Reads.expect hsemi Reads.pure)))

lemma forStart_reads {start : Option (ForStart Unit)} (hfits : ForStart.Fits start)
    (h : ForStart.Spells context.inClass start ts) : Reads (forStart context) start ts rest := by
  rw [forStart]
  cases start with
  | none =>
      obtain ⟨semicolon, rfl, hsemi⟩ := h
      refine Reads.found (by simp [hsemi]) ?_
      simp only [hsemi, if_true]
      exact Reads.pure
  | some first =>
      cases first with
      | var name value =>
          obtain ⟨word, b, rfl, hword, hvar⟩ := h
          refine Reads.found (by simp [hword]) ?_
          simp only [hword, reduceCtorEq, if_false]
          exact Reads.last (varRest_reads hfits hvar) Reads.pure
      | expr e =>
          obtain ⟨a, semicolon, rfl, hsemi, he⟩ := h
          have havoid : Avoids [.semicolon, .varWord] (a ++ [semicolon] ++ rest) := by
            rw [List.append_assoc]
            exact avoids_of_spells he (by decide)
          exact Reads.absent havoid (Reads.last (valueRest_reads he hsemi) Reads.pure)

/-! ## How a statement begins -/

/-- The first token of a statement: it ends neither a block nor an `if`, and it is the word of a
declaration only if the statement declares something. -/
structure BeginsStmt (s : Item) (t : Token) : Prop where
  goesOn : t.kind ∉ [Kind.elseWord, .rightBrace]
  plain : s.isDeclaration = false → t.kind ∉ [Kind.classWord, .subWord, .varWord]

/-- A statement spelled by a word of its own begins with it. -/
lemma BeginsStmt.of_kind {t : Token} {kind : Kind} (ht : t.kind = kind)
    (hkind : kind ∉ [Kind.elseWord, .rightBrace, .classWord, .subWord, .varWord]) :
    BeginsStmt s t := by
  subst ht
  simp only [List.mem_cons, List.not_mem_nil, or_false, not_or] at hkind
  exact ⟨by simp [hkind], fun _ => by simp [hkind]⟩

lemma BeginsStmt.of_declaration {t : Token} {kind : Kind} (ht : t.kind = kind)
    (hkind : kind ∉ [Kind.elseWord, .rightBrace]) (hs : s.isDeclaration = true) : BeginsStmt s t :=
  ⟨ht ▸ hkind, fun h => by rw [hs] at h; cases h⟩

/-- The spelling of a statement is never empty, and it shows that a statement begins. -/
theorem begins_of_stmt_spells : ∀ {s : Item} {ts : List Token}, s.Spells context ts →
    ∃ t tail, ts = t :: tail ∧ BeginsStmt s t
  | .expr e, _, h => by
      obtain ⟨a, semicolon, rfl, -, he, -⟩ := h
      obtain ⟨t, tail, rfl, ht⟩ := begins_of_spells he
      have hmem : ∀ kind ∈ firstKinds,
          kind ∉ [Kind.elseWord, .rightBrace, .classWord, .subWord, .varWord] := by decide
      exact ⟨t, _, rfl, .of_kind rfl (hmem _ ht.mem)⟩
  | .echo e, _, h => by
      rw [Stmt.Spells] at h
      exact h.elim
  | .var name value, _, h => by
      obtain ⟨word, b, rfl, hword, -⟩ := h
      exact ⟨word, b, rfl, .of_declaration hword (by decide) rfl⟩
  | .block body, _, h => by
      obtain ⟨left, mid, right, rfl, hleft, -⟩ := h
      exact ⟨left, _, rfl, .of_kind hleft (by decide)⟩
  | .exit keyword code, _, h => by
      obtain ⟨a, semicolon, rfl, -, -, hword⟩ := h
      exact ⟨keyword, _, rfl, .of_kind hword (by decide)⟩
  | .branch test yes no, _, h => by
      obtain ⟨word, left, a, right, b, c, rfl, hword, -⟩ := h
      exact ⟨word, _, rfl, .of_kind hword (by decide)⟩
  | .loop test body, _, h => by
      obtain ⟨word, left, a, right, b, rfl, hword, -⟩ := h
      exact ⟨word, _, rfl, .of_kind hword (by decide)⟩
  | .forLoop start test after body, _, h => by
      obtain ⟨word, left, a, b, semicolon, c, right, d, rfl, hword, -⟩ := h
      exact ⟨word, _, rfl, .of_kind hword (by decide)⟩
  | .step direction ref, _, h => by
      obtain ⟨word, semicolon, rfl, hword, -⟩ := h
      exact ⟨word, _, rfl, .of_kind hword (by cases direction <;> decide)⟩
  | .jump j keyword, _, h => by
      obtain ⟨semicolon, rfl, -, -, hword⟩ := h
      exact ⟨keyword, _, rfl, .of_kind hword (by cases j <;> decide)⟩
  | .routine ⟨name, params, body⟩, _, h => by
      obtain ⟨word, head, mid, right, rfl, hword, -⟩ := h
      exact ⟨word, _, rfl, .of_declaration hword (by decide) rfl⟩
  | .giveBack keyword value, _, h => by
      obtain ⟨a, semicolon, rfl, -, -, hword⟩ := h
      exact ⟨keyword, _, rfl, .of_kind hword (by decide)⟩
  | .classDecl name superclass methods statics getters setters, _, h => by
      obtain ⟨word, parent, left, members, right, rfl, hword, -⟩ := h
      exact ⟨word, _, rfl, .of_declaration hword (by decide) rfl⟩

/-- No `else` follows where statements are listed. -/
lemma avoids_else_of_spellsAll {items : List Item} (h : Stmt.SpellsAll context items ts)
    (hrest : Avoids [.elseWord] rest) : Avoids [.elseWord] (ts ++ rest) := by
  cases items with
  | nil =>
      rw [Stmt.SpellsAll] at h
      rwa [h, List.nil_append]
  | cons s items =>
      obtain ⟨a, b, rfl, hs, -⟩ := h
      obtain ⟨t, tail, rfl, ht⟩ := begins_of_stmt_spells hs
      exact avoids_cons.mpr fun hmem => ht.goesOn (by simp [List.mem_singleton.mp hmem])

/-! ## Blocks and routines -/

/-- At its brace a block is over. -/
lemma Reads.over {f : Bool → Parser β} {b : β} {brace : Token} (hbrace : brace.kind = .rightBrace)
    (hf : Reads (f true) b [] (brace :: rest)) : Reads (blockOver >>= f) b [] (brace :: rest) := by
  intro endLine reports
  rw [bind_ok (blockOver_eq _)]
  simp only [List.nil_append, List.head?_cons, Option.all_some, hbrace, decide_true]
  exact hf endLine reports

/-- Before that it is not. -/
lemma Reads.notOver {f : Bool → Parser β} {b : β} {t : Token} {tail : List Token}
    (ht : t.kind ≠ .rightBrace) (hf : Reads (f false) b (t :: tail) rest) :
    Reads (blockOver >>= f) b (t :: tail) rest := by
  intro endLine reports
  rw [bind_ok (blockOver_eq _)]
  simp only [List.cons_append, List.head?_cons, Option.all_some, ht, decide_false]
  exact hf endLine reports

/-- The declarations of a block are read up to its closing brace. -/
lemma declarations_reads (h : Complete n grammar) {brace : Token} (hbrace : brace.kind = .rightBrace) :
    ∀ {items : List Item} {ts : List Token} (fuel : Nat), Stmt.SpellsAll context items ts →
      (ts ++ brace :: rest).length < fuel → fuel ≤ n →
      Reads (declarations grammar context fuel) items ts (brace :: rest)
  | _, _, 0, _, hlen, _ => absurd hlen (Nat.not_lt_zero _)
  | [], _, fuel + 1, hall, _, _ => by
      rw [Stmt.SpellsAll] at hall
      subst hall
      rw [declarations]
      exact Reads.over hbrace Reads.pure
  | s :: items, _, fuel + 1, hall, hlen, hn => by
      obtain ⟨a, b, rfl, hs, hitems⟩ := hall
      obtain ⟨t, tail, rfl, ht⟩ := begins_of_stmt_spells hs
      have hbrace' : Avoids [.elseWord] (brace :: rest) := avoids_cons.mpr (by simp [hbrace])
      have hreads := h.declaration context (some s) (t :: tail) (b ++ brace :: rest)
        ⟨s, rfl, hs, fun _ => avoids_else_of_spellsAll hitems hbrace'⟩
        (by rw [List.append_assoc] at hlen; omega)
      have hmore := declarations_reads h hbrace fuel hitems
        (by simp only [List.length_append, List.length_cons] at hlen ⊢; omega) (by omega)
      rw [declarations]
      exact Reads.notOver (fun hk => ht.goesOn (by simp [hk]))
        (Reads.bind hreads (Reads.last hmore Reads.pure))

lemma block_reads (h : Complete fuel grammar) {body : List Item} {brace : Token}
    (hbrace : brace.kind = .rightBrace) (hbody : Stmt.SpellsAll context body ts)
    (hlen : (ts ++ brace :: rest).length < fuel) :
    Reads (block grammar fuel context) body (ts ++ [brace]) rest := by
  rw [block]
  exact Reads.bind (declarations_reads h hbrace fuel hbody hlen (Nat.le_refl fuel))
    (Reads.expect hbrace Reads.pure)

lemma checkParams_reads {form : RoutineForm} {params : List Token} {f : Unit → Parser β} {b : β}
    (hgetter : form = .getter → params.length = 0) (hsetter : form = .setter → params.length = 1)
    (hf : Reads (f ()) b ts rest) : Reads (checkParams form params >>= f) b ts rest := by
  have hcheck : checkParams form params = Pure.pure () := by
    unfold checkParams
    split
    · cases hgetter rfl
    · rfl
    · next hone =>
        obtain ⟨p, rfl⟩ := List.length_eq_one_iff.mp (hsetter rfl)
        exact absurd rfl (hone p)
    · rfl
  rw [hcheck]
  exact hf

/-- The parameters of a routine are read up to the closing parenthesis. -/
lemma params_reads {params : List Token} {right : Token} (hright : right.kind = .rightParen)
    (hkinds : ∀ p ∈ params, p.kind = .identifier) (hlimit : params.length ≤ Listing.limit)
    (hcommas : Commas (params.map ([·])) ts) (hlen : (ts ++ right :: rest).length < fuel) :
    Reads (listUpTo .parameters .rightParen fuel (expect .identifier .parameterName)) params ts
      (right :: rest) := by
  have hall : List.Forall₂ (fun p text => ∀ tail, Opens [.comma, .rightParen] tail →
      (text ++ tail).length < fuel → Reads (expect .identifier .parameterName) p text tail) params
      (params.map ([·])) := by
    clear hcommas hlimit
    induction params with
    | nil => exact .nil
    | cons p params ih =>
        refine .cons (fun tail _ _ => Reads.token (hkinds p List.mem_cons_self)) (ih ?_)
        exact fun p hp => hkinds p (List.mem_cons_of_mem _ hp)
  refine Reads.listUpTo (by decide) ⟨right, rest, rfl, by simp [hright]⟩ hall hcommas hlimit
    (fun hne => ?_) hlen
  cases params with
  | nil => exact absurd rfl hne
  | cons p params =>
      obtain ⟨v, rfl⟩ := commas_cons hcommas
      exact avoids_cons.mpr (by simp [hkinds p List.mem_cons_self])

lemma routine_reads (h : Complete fuel grammar) {form : RoutineForm} {r : Routine Item}
    (hr : SpellsRoutine context r ts) (hfits : r.Fits form) (hlen : (ts ++ rest).length < fuel) :
    Reads (routine grammar fuel context form) r ts rest := by
  obtain ⟨head, mid, close, rfl, hclose, ⟨left, params, right, brace, hhead, hleft, hright, hbrace,
    hparams⟩, hbody⟩ := hr
  obtain ⟨hname, hkinds, hlimit, hgetter, hsetter⟩ := hfits
  rw [hhead] at hlen ⊢
  simp only [List.cons_append, List.append_assoc, List.length_cons, List.length_append,
    List.nil_append] at hlen ⊢
  have hlen' : (params ++ right :: (brace :: (mid ++ [close]) ++ rest)).length < fuel := by
    simp only [List.cons_append, List.append_assoc, List.length_cons, List.length_append,
      List.nil_append]
    omega
  have hlen'' : (mid ++ close :: rest).length < fuel := by
    simp only [List.length_cons, List.length_append]
    omega
  rw [routine]
  exact Reads.expect hname (Reads.expect hleft (Reads.bind
    (params_reads hright hkinds hlimit hparams hlen') (Reads.expect hright
      (checkParams_reads hgetter hsetter (Reads.expect hbrace
        (Reads.last (block_reads h hclose hbody hlen'') Reads.pure))))))

/-! ## Classes -/

/-- A routine of a class is read, with the group it is marked for. -/
lemma member_reads (h : Complete fuel grammar) {m : Group × Routine Item}
    (hm : SpellsMember context m ts) (hlen : (ts ++ rest).length < fuel) :
    Reads (member grammar fuel context) m ts rest := by
  obtain ⟨group, r⟩ := m
  obtain ⟨mark, body, rfl, hmark, hr, hfits⟩ := hm
  have hlen' : (body ++ rest).length < fuel := by
    simp only [List.length_append] at hlen ⊢
    omega
  rw [member]
  cases group with
  | methods =>
      obtain rfl := hmark
      have havoid : Avoids [.staticWord, .getWord, .setWord] (body ++ rest) := by
        obtain ⟨head, mid, close, rfl, -, ⟨left, params, right, brace, rfl, -⟩, -⟩ := hr
        exact avoids_cons.mpr (by simp [show r.name.kind = .identifier from hfits.1])
      exact Reads.absent havoid (Reads.last (routine_reads h hr hfits hlen') Reads.pure)
  | statics | getters | setters =>
      obtain ⟨word, rfl, hword⟩ := hmark
      refine Reads.found (by simp [hword]) ?_
      simp only [hword]
      exact Reads.last (routine_reads h hr hfits hlen') Reads.pure

/-- A routine in a class body begins with its mark or its name. -/
lemma begins_of_member {m : Group × Routine Item} (hm : SpellsMember context m ts) :
    ∃ t tail, ts = t :: tail ∧ t.kind ≠ .rightBrace := by
  obtain ⟨mark, body, rfl, hmark, ⟨head, mid, close, rfl, -, ⟨left, params, right, brace, rfl, -⟩, -⟩,
    hfits⟩ := hm
  obtain ⟨group, r⟩ := m
  cases group with
  | methods =>
      obtain rfl := hmark
      exact ⟨_, _, rfl, by simp [show r.name.kind = .identifier from hfits.1]⟩
  | statics | getters | setters =>
      obtain ⟨word, rfl, hword⟩ := hmark
      exact ⟨word, _, rfl, by simp [hword]⟩

/-- The routines of a class body are read up to its closing brace. -/
lemma members_reads (h : Complete n grammar) {brace : Token} (hbrace : brace.kind = .rightBrace) :
    ∀ {all : List (Group × Routine Item)} {texts : List (Group × List Token)},
      List.Forall₂ (fun m text => m.1 = text.1 ∧ SpellsMember context m text.2) all texts →
      ∀ fuel, ((texts.map Prod.snd).flatten ++ brace :: rest).length < fuel → fuel ≤ n →
      Reads (members grammar context n fuel) all (texts.map Prod.snd).flatten (brace :: rest) := by
  intro all texts hall
  induction hall with
  | nil =>
      intro fuel hlen _
      cases fuel with
      | zero => exact absurd hlen (Nat.not_lt_zero _)
      | succ fuel =>
          rw [members]
          exact Reads.over hbrace Reads.pure
  | @cons m text all texts hm _ ih =>
      intro fuel hlen hn
      obtain ⟨group, text⟩ := text
      obtain ⟨t, tail, rfl, ht⟩ := begins_of_member hm.2
      simp only [List.map_cons, List.flatten_cons, List.append_assoc] at hlen ⊢
      cases fuel with
      | zero => exact absurd hlen (Nat.not_lt_zero _)
      | succ fuel =>
          have hreads := member_reads h hm.2 (Nat.lt_of_lt_of_le hlen hn)
          have hmore := ih fuel (by
            simp only [List.cons_append, List.length_cons, List.length_append] at hlen ⊢
            omega) (by omega)
          rw [members]
          exact Reads.notOver ht (Reads.bind hreads (Reads.last hmore Reads.pure))

/-- The routines of the four groups, put together in the order of their texts. -/
lemma members_of_spellsRoutines (texts : List (Group × List Token))
    (routines : Group → List (Routine Item))
    (hspells : ∀ g, Stmt.SpellsRoutines context g (routines g) (ofGroup g texts))
    (hfits : ∀ g, ∀ r ∈ routines g, r.Fits g.form) :
    ∃ all, (∀ g, ofGroup g all = routines g)
      ∧ List.Forall₂ (fun m text => m.1 = text.1 ∧ SpellsMember context m text.2) all texts := by
  induction texts generalizing routines with
  | nil =>
      refine ⟨[], fun g => ?_, .nil⟩
      have h := hspells g
      cases hr : routines g with
      | nil => rfl
      | cons r more =>
          rw [hr] at h
          obtain ⟨_, _, _, _, _, h', -⟩ := h
          cases h'
  | cons first texts ih =>
      obtain ⟨group, text⟩ := first
      have h := hspells group
      rw [ofGroup_cons, if_pos rfl] at h
      cases hr : routines group with
      | nil =>
          rw [hr, Stmt.SpellsRoutines] at h
          cases h
      | cons r more =>
          obtain ⟨name, params, body⟩ := r
          rw [hr] at h
          obtain ⟨mark, head, mid, right, _, h', hmark, hright, hhead, hbody, hmore⟩ := h
          cases h'
          obtain ⟨all, hall, htexts⟩ := ih
            (fun g => if g = group then more else routines g)
            (fun g => by
              by_cases hg : g = group
              · rw [if_pos hg, hg]
                exact hmore
              · have hother := hspells g
                rw [ofGroup_cons, if_neg (Ne.symm hg)] at hother
                rwa [if_neg hg])
            (fun g r hmem => by
              by_cases hg : g = group
              · rw [if_pos hg] at hmem
                exact hg ▸ hfits group r (by rw [hr]; exact List.mem_cons_of_mem _ hmem)
              · rw [if_neg hg] at hmem
                exact hfits g r hmem)
          refine ⟨(group, ⟨name, params, body⟩) :: all, fun g => ?_, .cons ⟨rfl, ?_⟩ htexts⟩
          · rw [ofGroup_cons, hall]
            by_cases hg : g = group
            · rw [if_pos hg.symm, if_pos hg, hg, hr]
            · rw [if_neg (Ne.symm hg), if_neg hg]
          · exact ⟨mark, _, rfl, hmark, ⟨head, mid, right, rfl, hright, hhead, hbody⟩,
              hfits group _ (by rw [hr]; exact List.mem_cons_self)⟩

/-- The routines of a class by their group. -/
def byGroup {α : Type} (methods statics getters setters : List α) : Group → List α
  | .methods => methods
  | .statics => statics
  | .getters => getters
  | .setters => setters

/-- A class from the brace of its body on. -/
lemma classBody_reads (h : Complete fuel grammar) {name left right : Token}
    {superclass : Option (Reference Unit)} {methods statics getters setters : List (Routine Item)}
    {texts : List (Group × List Token)} (hleft : left.kind = .leftBrace)
    (hright : right.kind = .rightBrace)
    (hspells : ∀ g, Stmt.SpellsRoutines { context with inClass := true } g
      (byGroup methods statics getters setters g) (ofGroup g texts))
    (hfits : ∀ g, ∀ r ∈ byGroup methods statics getters setters g, r.Fits g.form)
    (hlen : ((texts.map Prod.snd).flatten ++ right :: rest).length < fuel) :
    Reads (expect .leftBrace .classBody >>= fun _ =>
      members grammar { context with inClass := true } fuel fuel >>= fun all =>
      expect .rightBrace .classEnd >>= fun _ =>
      Pure.pure (Stmt.classDecl name superclass (ofGroup .methods all) (ofGroup .statics all)
        (ofGroup .getters all) (ofGroup .setters all)))
      (.classDecl name superclass methods statics getters setters)
      (left :: ((texts.map Prod.snd).flatten ++ [right])) rest := by
  obtain ⟨all, hall, htexts⟩ := members_of_spellsRoutines texts _ hspells hfits
  refine Reads.expect hleft (Reads.bind (members_reads h hright htexts fuel hlen (Nat.le_refl fuel))
    (Reads.expect hright ?_))
  rw [hall, hall, hall, hall]
  exact Reads.pure

lemma classRest_reads (h : Complete fuel grammar) {word : Token} {name : Token}
    {superclass : Option (Reference Unit)} {methods statics getters setters : List (Routine Item)}
    (hs : (Stmt.classDecl name superclass methods statics getters setters).Spells context (word :: ts))
    (hlen : (ts ++ rest).length < fuel) :
    Reads (classRest grammar fuel context) (.classDecl name superclass methods statics getters setters)
      ts rest := by
  obtain ⟨word', parent, left, texts, right, hts, -, hleft, hright, hparent, hm, hst, hg, hset, hname,
    hsuper, hm', hst', hg', hset'⟩ := hs
  obtain rfl := (List.cons.inj hts).2
  rw [classRest]
  have hspells : ∀ g, Stmt.SpellsRoutines { context with inClass := true } g
      (byGroup methods statics getters setters g) (ofGroup g texts) := by
    intro g
    cases g <;> assumption
  have hfits : ∀ g, ∀ r ∈ byGroup methods statics getters setters g, r.Fits g.form := by
    intro g
    cases g <;> assumption
  have hlen' : ((texts.map Prod.snd).flatten ++ right :: rest).length < fuel := by
    simp only [List.cons_append, List.append_assoc, List.length_cons, List.length_append,
      List.length_nil] at hlen ⊢
    omega
  cases superclass with
  | none =>
      obtain rfl := hparent
      refine Reads.expect hname (Reads.absent (avoids_cons.mpr (by simp [hleft])) ?_)
      exact Reads.bind (u := []) Reads.pure (classBody_reads h hleft hright hspells hfits hlen')
  | some ref =>
      obtain ⟨arrow, rfl, harrow⟩ := hparent
      refine Reads.expect hname (Reads.found (by simp [harrow]) ?_)
      have hreads : Reads ((some ∘ unresolved) <$> expect .identifier .superclassName) (some ref)
          [ref.name] (left :: ((texts.map Prod.snd).flatten ++ [right]) ++ rest) := by
        rw [← bind_pure_comp]
        exact Reads.last (Reads.token (hsuper ref rfl)) Reads.pure
      exact Reads.bind hreads (classBody_reads h hleft hright hspells hfits hlen')

/-! ## Statements -/

lemma branchRest_reads (h : Complete fuel grammar) {word : Token} {test : Tree} {yes : Item}
    {no : Option Item} (hs : Taking context (.branch test yes no) (word :: ts) rest)
    (hlen : (ts ++ rest).length < fuel) :
    Reads (branchRest grammar context) (.branch test yes no) ts rest := by
  obtain ⟨word', left, a, right, b, c, hts, -, hleft, hright, htest, hyes, hno, hdecl, hfits⟩ := hs.spells
  obtain rfl := (List.cons.inj hts).2
  simp only [List.cons_append, List.append_assoc, List.length_cons, List.length_append] at hlen
  have htext : left :: (a ++ right :: (b ++ c)) = left :: (a ++ [right]) ++ (b ++ c) := by simp
  rw [branchRest, htext]
  refine Reads.bind (condition_reads htest hleft hright) ?_
  cases no with
  | none =>
      rw [Stmt.SpellsElse] at hno
      subst hno
      rw [List.append_nil]
      have havoid : Avoids [.elseWord] rest := hs.closes rfl
      have hreads := h.statement context yes b rest ⟨⟨hyes, fun _ => havoid⟩, hdecl⟩
        (by rw [List.length_append]; omega)
      exact Reads.last hreads (Reads.absent havoid Reads.pure)
  | some other =>
      obtain ⟨word'', c, rfl, helse, hother⟩ := hno
      obtain ⟨hdecl', hclosed⟩ := hfits other rfl
      have hreads := h.statement context yes b (word'' :: c ++ rest)
        ⟨.of_closed hyes hclosed, hdecl⟩
        (by simp only [List.cons_append, List.length_cons, List.length_append] at hlen ⊢; omega)
      have hreads' := h.statement context other c rest ⟨⟨hother, hs.closes⟩, hdecl'⟩
        (by simp only [List.length_cons, List.length_append] at hlen ⊢; omega)
      exact Reads.bind hreads (Reads.found (by simp [helse]) (Reads.last hreads' Reads.pure))

lemma loopRest_reads (h : Complete fuel grammar) {word : Token} {test : Tree} {body : Item}
    (hs : Taking context (.loop test body) (word :: ts) rest) (hlen : (ts ++ rest).length < fuel) :
    Reads (loopRest grammar context) (.loop test body) ts rest := by
  obtain ⟨word', left, a, right, b, hts, -, hleft, hright, htest, hbody, hdecl⟩ := hs.spells
  obtain rfl := (List.cons.inj hts).2
  simp only [List.cons_append, List.append_assoc, List.length_cons, List.length_append] at hlen
  have htext : left :: (a ++ right :: b) = left :: (a ++ [right]) ++ b := by simp
  have hreads := h.statement { context with inLoop := true } body b rest ⟨⟨hbody, hs.closes⟩, hdecl⟩
    (by rw [List.length_append]; omega)
  rw [loopRest, htext]
  exact Reads.bind (condition_reads htest hleft hright) (Reads.last hreads Reads.pure)

lemma forRest_reads (h : Complete fuel grammar) {word : Token} {start : Option (ForStart Unit)}
    {test : Tree} {after : Option Tree} {body : Item}
    (hs : Taking context (.forLoop start test after body) (word :: ts) rest)
    (hlen : (ts ++ rest).length < fuel) :
    Reads (forRest grammar context) (.forLoop start test after body) ts rest := by
  obtain ⟨word', left, a, b, semicolon, c, right, d, hts, -, hleft, hsemi, hright, hstart, htest,
    hafter, hbody, hfits, hdecl⟩ := hs.spells
  obtain rfl := (List.cons.inj hts).2
  obtain ⟨test', htest', rfl⟩ : ∃ test', Expr.SpellsOption context.inClass test' b
      ∧ test = test'.getD (.literal (.bool true)) := by
    rcases htest with htest | ⟨rfl, rfl⟩
    · exact ⟨some test, htest, rfl⟩
    · exact ⟨none, rfl, rfl⟩
  have hreads := h.statement { context with inLoop := true } body d rest ⟨⟨hbody, hs.closes⟩, hdecl⟩
    (by simp only [List.cons_append, List.append_assoc, List.length_cons, List.length_append] at hlen ⊢
        omega)
  rw [forRest]
  exact Reads.expect hleft (Reads.bind (forStart_reads hfits hstart) (Reads.bind
    (expressionUnless_reads hsemi (by decide) htest') (Reads.expect hsemi (Reads.bind
      (expressionUnless_reads hright (by decide) hafter) (Reads.expect hright
        (Reads.last hreads Reads.pure))))))

lemma exitRest_reads {word : Token} {code : Tree}
    (hs : (Stmt.exit word code).Spells context (word :: ts)) :
    Reads (exitRest word context) (.exit word code) ts rest := by
  obtain ⟨a, semicolon, hts, hsemi, hcode, -⟩ := hs
  obtain rfl := (List.cons.inj hts).2
  rw [exitRest]
  rcases hcode with hcode | ⟨rfl, rfl⟩
  · have havoid : Avoids [.semicolon] (a ++ [semicolon] ++ rest) := by
      rw [List.append_assoc]
      exact avoids_of_spells hcode (by decide)
    exact Reads.absent havoid (Reads.last (valueRest_reads hcode hsemi) Reads.pure)
  · exact Reads.found (by simp [hsemi]) Reads.pure

lemma stepRest_reads {word : Token} {direction : Direction} {ref : Reference Unit}
    (hs : (Stmt.step direction ref).Spells context (word :: ts)) :
    Reads (stepRest word) (.step direction ref) ts rest := by
  obtain ⟨word', semicolon, hts, hword, hsemi, hname⟩ := hs
  cases hts
  have hdirection : directionOf word = direction := by
    cases direction <;> simp [directionOf, hword, Direction.kind]
  rw [stepRest, hdirection]
  exact Reads.expect hname (Reads.expect hsemi Reads.pure)

lemma returnRest_reads {word : Token} {value : Option Tree}
    (hs : (Stmt.giveBack word value).Spells context (word :: ts)) :
    Reads (returnRest word context) (.giveBack word value) ts rest := by
  obtain ⟨a, semicolon, hts, hsemi, hvalue, -⟩ := hs
  obtain rfl := (List.cons.inj hts).2
  rw [returnRest]
  exact Reads.bind (expressionUnless_reads hsemi (by decide) hvalue) (Reads.expect hsemi Reads.pure)

lemma jumpRest_reads {word : Token} {j : Jump} (hs : (Stmt.jump j word).Spells context (word :: ts)) :
    Reads (jumpRest word j context) (.jump j word) ts rest := by
  obtain ⟨semicolon, hts, hsemi, hloop, -⟩ := hs
  obtain rfl := (List.cons.inj hts).2
  rw [jumpRest, if_pos hloop]
  exact Reads.expect hsemi Reads.pure

/-- Every spelling of a statement that declares nothing is read: by the kind of statement. -/
lemma statement_completes (h : Complete fuel grammar) :
    Completes (fuel + 1) (statement grammar fuel context) fun s ts rest =>
      Taking context s ts rest ∧ s.isDeclaration = false := by
  rintro s ts rest ⟨hs, hdecl⟩ hlen
  have hspells := hs.spells
  rw [statement]
  cases s with
  | expr e =>
      obtain ⟨a, semicolon, rfl, hsemi, he, hstep⟩ := (by simpa only [Stmt.Spells] using hspells)
      obtain ⟨t, tail, rfl, ht⟩ := begins_of_spells he
      have havoid : t.kind ∉ statementKinds := by
        have hkinds : ∀ kind ∈ firstKinds, kind ∈ statementKinds → kind ∈ [Kind.incWord, .decWord] := by
          decide
        intro hmem
        have := ht.step.mpr (hkinds _ ht.mem hmem)
        rw [show e.beginsWithStep = false from hstep] at this
        cases this
      exact Reads.absent (avoids_cons.mpr havoid) (Reads.last (valueRest_reads he hsemi) Reads.pure)
  | echo e =>
      rw [Stmt.Spells] at hspells
      exact hspells.elim
  | block body =>
      obtain ⟨left, mid, right, rfl, hleft, hright, hbody⟩ := (by simpa only [Stmt.Spells] using hspells)
      have hlen' : (mid ++ right :: rest).length < fuel := by
        simp only [List.cons_append, List.append_assoc, List.length_cons, List.length_append] at hlen ⊢
        simpa using hlen
      refine Reads.found (by simp [hleft, statementKinds]) ?_
      simp only [hleft]
      exact Reads.last (block_reads h hright hbody hlen') Reads.pure
  | exit keyword code =>
      obtain ⟨a, semicolon, rfl, -, -, hword⟩ := (by simpa only [Stmt.Spells] using hspells)
      rw [Stmt.Fits] at hword
      refine Reads.found (by simp [hword, statementKinds]) ?_
      simp only [hword]
      exact exitRest_reads hspells
  | branch test yes no =>
      obtain ⟨word, left, a, right, b, c, rfl, hword, -⟩ := (by simpa only [Stmt.Spells] using hspells)
      refine Reads.found (by simp [hword, statementKinds]) ?_
      simp only [hword]
      exact branchRest_reads h hs (Nat.lt_of_succ_lt_succ hlen)
  | loop test body =>
      obtain ⟨word, left, a, right, b, rfl, hword, -⟩ := (by simpa only [Stmt.Spells] using hspells)
      refine Reads.found (by simp [hword, statementKinds]) ?_
      simp only [hword]
      exact loopRest_reads h hs (Nat.lt_of_succ_lt_succ hlen)
  | forLoop start test after body =>
      obtain ⟨word, left, a, b, semicolon, c, right, d, rfl, hword, -⟩ := hspells
      refine Reads.found (by simp [hword, statementKinds]) ?_
      simp only [hword]
      exact forRest_reads h hs (Nat.lt_of_succ_lt_succ hlen)
  | step direction ref =>
      obtain ⟨word, semicolon, rfl, hword, -⟩ := (by simpa only [Stmt.Spells] using hspells)
      cases direction <;> rw [Direction.kind] at hword <;>
        refine Reads.found (by simp [hword, statementKinds]) ?_ <;> simp only [hword] <;>
        exact stepRest_reads hspells
  | jump j keyword =>
      obtain ⟨semicolon, rfl, -, -, hword⟩ := (by simpa only [Stmt.Spells] using hspells)
      cases j <;> rw [Jump.kind] at hword <;>
        refine Reads.found (by simp [hword, statementKinds]) ?_ <;> simp only [hword] <;>
        exact jumpRest_reads hspells
  | giveBack keyword value =>
      obtain ⟨a, semicolon, rfl, -, -, hword⟩ := (by simpa only [Stmt.Spells] using hspells)
      rw [Stmt.Fits] at hword
      refine Reads.found (by simp [hword, statementKinds]) ?_
      simp only [hword]
      exact returnRest_reads hspells
  | _ => cases hdecl

/-- Every spelling of a declaration or statement is read. -/
lemma declarationOrStatement_completes (h : Complete fuel grammar) :
    Completes (fuel + 1) (declarationOrStatement grammar fuel context) (Taking context) := by
  intro s ts rest hs hlen
  have hspells := hs.spells
  rw [declarationOrStatement]
  cases hdecl : s.isDeclaration with
  | false =>
      obtain ⟨t, tail, rfl, ht⟩ := begins_of_stmt_spells hspells
      exact Reads.absent (avoids_cons.mpr (ht.plain hdecl))
        (statement_completes h s _ rest ⟨hs, hdecl⟩ hlen)
  | true =>
      cases s with
      | var name value =>
          obtain ⟨word, b, rfl, hword, hvar, hname⟩ := (by simpa only [Stmt.Spells] using hspells)
          refine Reads.found (by simp [hword]) ?_
          simp only [hword]
          exact Reads.last (varRest_reads hname hvar) Reads.pure
      | routine r =>
          obtain ⟨name, params, body⟩ := r
          obtain ⟨word, head, mid, right, rfl, hword, hright, hhead, hbody, hfits⟩ := hspells
          refine Reads.found (by simp [hword]) ?_
          simp only [hword]
          exact Reads.last (routine_reads h ⟨head, mid, right, rfl, hright, hhead, hbody⟩ hfits
            (Nat.lt_of_succ_lt_succ hlen)) Reads.pure
      | classDecl name superclass methods statics getters setters =>
          obtain ⟨word, parent, left, members, right, rfl, hword, -⟩ :=
            (by simpa only [Stmt.Spells] using hspells)
          refine Reads.found (by simp [hword]) ?_
          simp only [hword]
          exact classRest_reads h hspells (Nat.lt_of_succ_lt_succ hlen)
      | _ => cases hdecl

/-- **The grammar of statements is complete**, however often it is entered again. -/
theorem complete : ∀ n, Complete n ⟨statementAt n, declarationAt n⟩
  | 0 => ⟨fun _ _ _ _ _ hlen => absurd hlen (Nat.not_lt_zero _),
      fun _ _ _ _ _ hlen => absurd hlen (Nat.not_lt_zero _)⟩
  | n + 1 => by
      refine ⟨fun context => ?_, fun context => ?_⟩
      · simpa only [statementAt] using statement_completes (complete n)
      · rintro _ ts rest ⟨s, rfl, hs⟩ hlen endLine reports
        have hreads := declarationOrStatement_completes (complete n) s ts rest hs hlen endLine reports
        simp only [declarationAt, declaration, hreads]

/-- Every spelling of a program is read to its end. -/
lemma program_reads : ∀ (fuel : Nat) {items : List Item} {ts : List Token},
    Stmt.SpellsAll topLevel items ts → ts.length < fuel → Reads (program fuel) items ts []
  | 0, _, _, _, hlen => absurd hlen (Nat.not_lt_zero _)
  | fuel + 1, [], _, hall, _ => by
      rw [Stmt.SpellsAll] at hall
      subst hall
      rw [program]
      exact fun _ _ => rfl
  | fuel + 1, s :: items, _, hall, hlen => by
      obtain ⟨a, b, rfl, hs, hitems⟩ := hall
      obtain ⟨t, tail, rfl, ht⟩ := begins_of_stmt_spells hs
      have hclosed : Avoids [.elseWord] (b ++ []) := avoids_else_of_spellsAll hitems avoids_nil
      have hreads := (complete (fuel + 1)).declaration topLevel (some s) (t :: tail) (b ++ [])
        ⟨s, rfl, hs, fun _ => hclosed⟩ (by rw [List.append_nil]; exact hlen)
      have hmore := program_reads fuel hitems (by
        simp only [List.cons_append, List.length_cons, List.length_append] at hlen
        omega)
      intro endLine reports
      rw [program]
      have hend : atEnd ⟨t :: tail ++ b ++ [], endLine, reports⟩
          = .ok false ⟨t :: tail ++ b ++ [], endLine, reports⟩ := rfl
      rw [bind_ok hend]
      have htail : Reads (program fuel >>= fun more => Pure.pure (s :: more)) (s :: items) b [] :=
        Reads.last hmore Reads.pure
      exact Reads.bind hreads htail endLine reports

end KScript.Parser

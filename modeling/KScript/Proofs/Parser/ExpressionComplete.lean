import KScript.Proofs.Parser.Ladder
import KScript.Proofs.Parser.Reads

/-!
# Every spelling of an expression is read

The other direction: tokens that spell an expression, and are followed by nothing that goes on with it,
are read back as that expression.

Operators lean to the left, but a parser reads their operands from left to right: it has read the
innermost left operand long before it knows how many operators follow.  So the lemmas about levels and
about calls (`leftLevel_continues`, `suffixes_continue`) are about an expression *and what is read
after it*: a parser that has a spelling in front of it comes to the point where that expression is what
it holds in its hands, with fuel enough for the tokens that are left.
-/

namespace KScript.Parser

variable {n k fuel : Nat} {inside : Bool} {enter : Entry → Parser Tree} {e : Tree}
  {ts v rest : List Token}

/-! ## Levels of operators -/

/-- A level comes to hold each expression of its rung or of a tighter one.  The induction is on the
length of the spelling: the left operand of an operator is spelled by fewer tokens. -/
lemma leftLevel_continues {join : Tree → Token → Tree → Tree} {operand : Parser Tree}
    (hjoin : Joins inside k join) (hoperand : Completes (fuel + 1) operand (Reading inside (k + 1))) :
    ∀ (m : Nat) {left : Tree} {a v : List Token}, a.length ≤ m → left.Spells inside a →
      k ≤ left.rank → Ends (k + 1) (v ++ rest) → (left.endsOpen = true → Ends 0 (v ++ rest)) →
      (a ++ (v ++ rest)).length ≤ fuel →
      (∀ f, (v ++ rest).length ≤ f → Reads (leftRest operand (rungKinds k) join f left) e v rest) →
      Reads (leftLevel fuel (rungKinds k) join operand) e (a ++ v) rest := by
  intro m
  induction m with
  | zero =>
      intro left a v hm hspells _ _ _ _ _
      obtain ⟨t, tail, rfl, -⟩ := begins_of_spells hspells
      simp at hm
  | succ m ih =>
      intro left a v hm hspells hrank hends hopen hlen hnext
      by_cases htight : k + 1 ≤ left.rank
      · -- a whole operand
        rw [leftLevel]
        have hreads := hoperand left a (v ++ rest) ⟨hspells, htight, hends, hopen⟩ (by omega)
        refine Reads.bind hreads (hnext fuel ?_)
        rw [List.length_append] at hlen
        omega
      · obtain ⟨l, op, r, b, c, rfl, rfl, hop, hl, hr, hkl, hkr, hclosed⟩ :=
          hjoin.splits hspells (by omega)
        simp only [List.append_assoc, List.cons_append, List.length_append, List.length_cons]
          at hlen hm ⊢
        refine ih (v := op :: (c ++ v)) (by omega) hl hkl ?_ ?_ ?_ fun f hf => ?_
        · refine ends_cons.mpr fun j hj => ?_
          have := (rung_eq_some.mpr hop).symm.trans hj
          cases this
          exact Nat.lt_succ_self k
        · intro h
          rw [hclosed] at h
          cases h
        · simp only [List.cons_append, List.append_assoc, List.length_append, List.length_cons]
          omega
        · simp only [List.cons_append, List.append_assoc, List.length_append, List.length_cons] at hf
          match f with
          | f + 1 =>
              rw [leftRest]
              have hreads := hoperand r c (v ++ rest)
                ⟨hr, hkr, hends, fun h => hopen ((hjoin.endsOpen hkr hr).mpr h)⟩
                (by simp only [List.length_append]; omega)
              exact Reads.found hop (Reads.bind hreads (hnext f (by
                rw [List.length_append]; omega)))

/-- With no operator of the level in front, what was read so far is all. -/
lemma leftRest_reads {join : Tree → Token → Tree → Tree} {operand : Parser Tree}
    (hends : Ends k rest) : ∀ f, Reads (leftRest operand (rungKinds k) join f e) e [] rest
  | 0 => Reads.pure
  | f + 1 => by
      rw [leftRest]
      exact Reads.absent (avoids_rung_of_ends hends) Reads.pure

/-- A level of operators reads every spelling of its rung. -/
lemma leftLevel_completes {join : Tree → Token → Tree → Tree} {operand : Parser Tree}
    (hjoin : Joins inside k join) (hoperand : Completes (fuel + 1) operand (Reading inside (k + 1))) :
    Completes (fuel + 1) (leftLevel fuel (rungKinds k) join operand) (Reading inside k) := by
  intro e ts rest h hlen
  have hreads := leftLevel_continues (e := e) (v := []) hjoin hoperand ts.length
    (Nat.le_refl _) h.spells h.rank (ends_of_le h.ends (Nat.le_succ k)) h.closes
    (Nat.le_of_lt_succ hlen) fun f _ => leftRest_reads h.ends f
  rwa [List.append_nil] at hreads

/-! ## Primaries and what follows them -/

lemma opens_ends {kinds : List Kind} (hkinds : ∀ kind ∈ kinds, kind.rung = none)
    (h : Opens kinds rest) : Ends k rest := by
  obtain ⟨t, tail, rfl, ht⟩ := h
  exact ends_of_rung_none (hkinds _ ht)

/-- A list of expressions up to a closing bracket. -/
lemma list_reads (listing : Listing) (entry : Entry) {close : Kind} {t : Token}
    (henter : ∀ entry, Completes n (enter entry) (Reading inside entry.rung))
    (hclose : close ∈ [Kind.rightParen, .rightSquare]) (ht : t.kind = close) {items : List Tree}
    {texts : List (List Token)} (hcommas : Commas texts ts)
    (hall : Expr.SpellsEach inside items texts) (hrank : ∀ e ∈ items, entry.rung ≤ e.rank)
    (hlimit : items.length ≤ Listing.limit) (hlen : (ts ++ t :: rest).length < n) :
    Reads (listUpTo listing close n (enter entry)) items ts (t :: rest) := by
  have hrung : ∀ kind ∈ [Kind.comma, close], kind.rung = none := by
    rcases List.mem_pair.mp hclose with rfl | rfl <;> decide
  have hne : close ≠ .comma ∧ close ∉ firstKinds := by
    rcases List.mem_pair.mp hclose with rfl | rfl <;> decide
  have hspells := forall_of_spellsEach hall
  have hitems : List.Forall₂ (fun a text => ∀ tail, Opens [.comma, close] tail →
      (text ++ tail).length < n → Reads (enter entry) a text tail) items texts := by
    clear hcommas hlimit hall
    induction hspells with
    | nil => exact .nil
    | cons he _ ih =>
        refine .cons (fun tail htail hlen' => ?_) (ih fun e he => hrank e (List.mem_cons_of_mem _ he))
        exact henter entry _ _ _ ⟨he, hrank _ List.mem_cons_self, opens_ends hrung htail,
          fun _ => opens_ends hrung htail⟩ hlen'
  refine Reads.listUpTo hne.1 ⟨t, rest, rfl, List.mem_singleton.mpr ht⟩ hitems hcommas hlimit
    (fun hsome => ?_) hlen
  cases hspells with
  | nil => exact absurd rfl hsome
  | cons he _ =>
      obtain ⟨v, rfl⟩ := commas_cons hcommas
      obtain ⟨t', tail, rfl, ht'⟩ := begins_of_spells he
      refine avoids_cons.mpr fun hmem => hne.2 ?_
      rw [← List.mem_singleton.mp hmem]
      exact ht'.mem

/-- Every spelling of a literal is read. -/
lemma literal_reads {t : Token} {value : Literal} (h : t.denotes? = some value) :
    Reads (primary enter fuel) (.literal value, t) [t] rest := by
  rw [primary]
  refine Reads.peek ?_
  unfold Token.denotes? at h
  dsimp only
  split at h
  case h_7 => cases h
  all_goals
    next hkind =>
      cases h
      simp only [hkind]
      exact Reads.advance Reads.pure

lemma word_reads {t : Token} (hkind : t.kind = .thisWord) :
    Reads (primary enter fuel) (.receiver (unresolved t), t) [t] rest := by
  rw [primary]
  refine Reads.peek ?_
  simp only [hkind]
  exact Reads.advance Reads.pure

lemma name_reads {t : Token} (hkind : t.kind = .identifier) :
    Reads (primary enter fuel) (.variable (unresolved t), t) [t] rest := by
  rw [primary]
  refine Reads.peek ?_
  simp only [hkind]
  exact Reads.advance Reads.pure

lemma inherited_reads {word dot method : Token} (hword : word.kind = .superWord)
    (hdot : dot.kind = .dot) (hmethod : method.kind = .identifier) :
    Reads (primary enter fuel) (.inherited (unresolved word) method, method) [word, dot, method]
      rest := by
  rw [primary]
  refine Reads.peek ?_
  simp only [hword]
  exact Reads.advance (Reads.expect hdot (Reads.expect hmethod Reads.pure))

lemma grouping_reads (henter : ∀ entry, Completes fuel (enter entry) (Reading inside entry.rung))
    {left right : Token} (hleft : left.kind = .leftParen) (hright : right.kind = .rightParen)
    (he : e.Spells inside ts) (hlen : (left :: (ts ++ [right]) ++ rest).length < fuel + 1) :
    Reads (primary enter fuel) (.grouping e, right) (left :: (ts ++ [right])) rest := by
  rw [primary]
  refine Reads.peek ?_
  simp only [hleft]
  have hend : right.kind.rung = none := by rw [hright]; rfl
  have hreads := henter .expression e ts ([right] ++ rest)
    ⟨he, Nat.zero_le _, ends_of_rung_none hend, fun _ => ends_of_rung_none hend⟩ (by
      simp only [List.length_append, List.length_cons, List.length_nil] at hlen ⊢
      omega)
  exact Reads.advance (Reads.bind hreads (Reads.expect hright Reads.pure))

lemma array_reads (henter : ∀ entry, Completes fuel (enter entry) (Reading inside entry.rung))
    {left right : Token} {items : List Tree} {texts : List (List Token)}
    (hleft : left.kind = .leftSquare) (hright : right.kind = .rightSquare)
    (hcommas : Commas texts ts) (hall : Expr.SpellsEach inside items texts)
    (hfits : Expr.Fits inside (.array items))
    (hlen : (left :: (ts ++ [right]) ++ rest).length < fuel + 1) :
    Reads (primary enter fuel) (.array items, right) (left :: (ts ++ [right])) rest := by
  rw [primary]
  refine Reads.peek ?_
  simp only [hleft]
  have hlen' : (ts ++ right :: rest).length < fuel := by
    simp only [List.length_append, List.length_cons, List.length_nil] at hlen ⊢
    omega
  have hreads := list_reads .items .disjunction henter (by decide) hright hcommas hall hfits.2 hfits.1 hlen'
  exact Reads.advance (Reads.bind hreads (Reads.expect hright Reads.pure))

/-- What begins with no counting word is read as a primary. -/
lemma stepped_of_primary {last t : Token} {tail : List Token}
    (h : Reads (primary enter fuel) (e, last) (t :: tail) rest) (ht : Begins e t)
    (hstep : e.beginsWithStep = false) : Reads (stepped enter fuel) e (t :: tail) rest := by
  rw [stepped]
  refine Reads.absent (avoids_cons.mpr fun hmem => ?_) (Reads.last h Reads.pure)
  rw [ht.step.mpr hmem] at hstep
  cases hstep

/-- A counting step is read. -/
lemma step_reads {word : Token} {direction : Direction} {ref : Reference Unit}
    (hword : word.kind = direction.kind) (href : ref.name.kind = .identifier) :
    Reads (stepped enter fuel) (.step direction ref) [word, ref.name] rest := by
  have hdirection : directionOf word = direction ∧ word.kind ∈ [Kind.incWord, .decWord] := by
    cases direction <;> simp [directionOf, hword, Direction.kind]
  rw [stepped]
  refine Reads.found hdirection.2 (Reads.last (name_reads href) ?_)
  rw [hdirection.1]
  exact Reads.pure

/-- A call or a property, with what it is called or taken from. -/
inductive Suffix (inside : Bool) : Tree → List Token → Tree → Prop where
  | call {e : Tree} {left paren : Token} {mid : List Token} {args : List Tree}
      {texts : List (List Token)} (hleft : left.kind = .leftParen) (hparen : paren.kind = .rightParen)
      (hcommas : Commas texts mid) (hargs : Expr.SpellsEach inside args texts)
      (hlimit : args.length ≤ Listing.limit) :
      Suffix inside e (left :: (mid ++ [paren])) (.call e paren args)
  | get {e : Tree} {dot name : Token} (hdot : dot.kind = .dot) (hname : name.kind = .identifier) :
      Suffix inside e [dot, name] (.get e name inside)

/-- An expression of the tightest rung is read as a primary, or it is a call or a property. -/
lemma tight_cases (henter : ∀ entry, Completes fuel (enter entry) (Reading inside entry.rung))
    (hspells : e.Spells inside ts) (hrank : e.rank = 10) :
    (∀ rest, (ts ++ rest).length < fuel + 1 → Reads (stepped enter fuel) e ts rest)
      ∨ ∃ e' a s, ts = a ++ s ∧ e'.Spells inside a ∧ e'.rank = 10 ∧ Suffix inside e' s e ∧ s ≠ [] := by
  obtain ⟨t, tail, hts, ht⟩ := begins_of_spells hspells
  cases e with
  | literal value =>
      obtain ⟨t', rfl, hvalue⟩ := hspells
      cases hts
      exact Or.inl fun rest _ => stepped_of_primary (literal_reads hvalue) ht rfl
  | array items =>
      obtain ⟨left, mid, right, texts, rfl, hleft, hright, hcommas, hall, hfits⟩ := hspells
      cases hts
      exact Or.inl fun rest hlen =>
        stepped_of_primary (array_reads henter hleft hright hcommas hall hfits hlen) ht rfl
  | grouping inner =>
      obtain ⟨left, mid, right, rfl, hleft, hright, hinner⟩ := hspells
      cases hts
      exact Or.inl fun rest hlen =>
        stepped_of_primary (grouping_reads henter hleft hright hinner hlen) ht rfl
  | «variable» ref =>
      obtain ⟨rfl, href⟩ := hspells
      cases hts
      exact Or.inl fun rest _ => stepped_of_primary (name_reads href) ht rfl
  | step direction ref =>
      obtain ⟨word, rfl, hword, href⟩ := hspells
      exact Or.inl fun rest _ => step_reads hword href
  | receiver ref =>
      obtain ⟨rfl, href⟩ := hspells
      cases hts
      exact Or.inl fun rest _ => stepped_of_primary (word_reads href) ht rfl
  | inherited ref method =>
      obtain ⟨dot, rfl, hdot, href, hmethod⟩ := hspells
      cases hts
      exact Or.inl fun rest _ => stepped_of_primary (inherited_reads href hdot hmethod) ht rfl
  | call callee paren args =>
      obtain ⟨a, left, mid, texts, rfl, hleft, hcallee, hcommas, hargs, hrank', hparen, hlimit⟩ := hspells
      exact Or.inr ⟨callee, a, _, rfl, hcallee, hrank', .call hleft hparen hcommas hargs hlimit,
        List.cons_ne_nil _ _⟩
  | get object name flag =>
      obtain ⟨a, dot, rfl, hdot, hobject, hrank', hname, rfl⟩ := hspells
      exact Or.inr ⟨object, a, _, rfl, hobject, hrank', .get hdot hname, List.cons_ne_nil _ _⟩
  | unary op operand | conditional condition yes no | assign ref value | set object name value flag =>
      simp [Expr.rank] at hrank
  | binary left op right =>
      have := binary_rank hspells
      omega
  | logical left op right =>
      have := logical_rank hspells
      omega

/-- One call or one property is read, and then what follows it. -/
lemma suffix_reads (henter : ∀ entry, Completes n (enter entry) (Reading inside entry.rung))
    {e' r : Tree} {s : List Token} (h : Suffix inside e s e')
    (hlen : (s ++ (v ++ rest)).length < n + 1)
    (hnext : Reads (suffixes enter inside n fuel e') r v rest) :
    Reads (suffixes enter inside n (fuel + 1) e) r (s ++ v) rest := by
  rw [suffixes]
  cases h with
  | @call left paren mid args texts hleft hparen hcommas hargs hlimit =>
      rw [List.cons_append, List.append_assoc]
      refine Reads.found (by simp [hleft]) ?_
      simp only [hleft, if_true]
      have hlen' : (mid ++ paren :: (v ++ rest)).length < n := by
        simp only [List.cons_append, List.append_assoc, List.length_cons, List.length_append,
          List.length_nil] at hlen ⊢
        omega
      have hreads := list_reads .arguments .expression henter (by decide) hparen hcommas hargs
        (fun e _ => Nat.zero_le _) hlimit hlen'
      exact Reads.bind hreads (Reads.expect hparen hnext)
  | @get dot name hdot hname =>
      refine Reads.found (by simp [hdot]) ?_
      simp only [hdot, reduceCtorEq, if_false]
      exact Reads.expect hname hnext

/-- Reading a primary and what follows it comes to hold each expression of the tightest rung.  Again
the induction is on the length of the spelling. -/
lemma suffixes_continue
    (henter : ∀ entry, Completes fuel (enter entry) (Reading inside entry.rung)) {r : Tree} :
    ∀ (m : Nat) {e : Tree} {a v : List Token}, a.length ≤ m → e.Spells inside a → e.rank = 10 →
      (a ++ (v ++ rest)).length ≤ fuel →
      (∀ f, (v ++ rest).length ≤ f → Reads (suffixes enter inside fuel f e) r v rest) →
      Reads (stepped enter fuel >>= suffixes enter inside fuel fuel) r (a ++ v) rest := by
  intro m
  induction m with
  | zero =>
      intro e a v hm hspells _ _ _
      obtain ⟨t, tail, rfl, -⟩ := begins_of_spells hspells
      simp at hm
  | succ m ih =>
      intro e a v hm hspells hrank hlen hnext
      rcases tight_cases henter hspells hrank with hreads | ⟨e', b, s, rfl, he', hrank', hs, hne⟩
      · rw [List.length_append] at hlen
        exact Reads.bind (hreads (v ++ rest) (by rw [List.length_append]; omega))
          (hnext fuel (by omega))
      · have hpos := List.length_pos_iff.mpr hne
        rw [List.length_append] at hm
        rw [List.append_assoc] at hlen ⊢
        refine ih (by omega) he' hrank' (by rwa [List.append_assoc s v rest]) fun f hf => ?_
        simp only [List.length_append] at hlen hf
        obtain ⟨f, rfl⟩ : ∃ g, f = g + 1 := ⟨f - 1, by omega⟩
        refine suffix_reads henter hs ?_ (hnext f ?_)
        · simp only [List.length_append]
          omega
        · rw [List.length_append]
          omega

lemma suffixes_reads {bound : Nat} (hends : Ends 10 rest) :
    ∀ f, Reads (suffixes enter inside bound f e) e [] rest
  | 0 => Reads.pure
  | f + 1 => by
      rw [suffixes]
      exact Reads.absent (avoids_rung_of_ends hends) Reads.pure

/-! ## From unary operators to assignments -/

lemma unaryLevel_completes
    (henter : ∀ entry, Completes fuel (enter entry) (Reading inside entry.rung)) :
    Completes (fuel + 1) (unaryLevel enter inside fuel) (Reading inside 9) := by
  intro e ts rest h hlen
  rw [unaryLevel]
  by_cases hrank : e.rank = 10
  · obtain ⟨t, tail, rfl, ht⟩ := begins_of_spells h.spells
    refine Reads.absent (avoids_cons.mpr (ht.tight hrank)) ?_
    have hends : Ends 10 rest := ends_of_le h.ends (by omega)
    have hreads := suffixes_continue henter (v := []) (t :: tail).length (Nat.le_refl _) h.spells
      hrank (Nat.le_of_lt_succ hlen) fun f _ => suffixes_reads hends f
    rwa [List.append_nil] at hreads
  · have h9 := h.rank
    cases e with
    | unary op operand =>
        obtain ⟨b, rfl, hoperand, hop, hrank'⟩ := h.spells
        have hclosed : operand.endsOpen = true → Ends 0 rest := by
          intro hopen
          have := rank_le_of_endsOpen hoperand hopen
          omega
        have hreads := henter .unary operand b rest ⟨hoperand, hrank', h.ends, hclosed⟩
          (Nat.lt_of_succ_lt_succ hlen)
        exact Reads.found hop (Reads.last hreads Reads.pure)
    | binary left op right =>
        have := binary_rank h.spells
        omega
    | logical left op right =>
        have := logical_rank h.spells
        omega
    | _ => simp [Expr.rank] at hrank h9

lemma equalityLevel_completes
    (henter : ∀ entry, Completes fuel (enter entry) (Reading inside entry.rung)) :
    Completes (fuel + 1) (equalityLevel enter inside fuel) (Reading inside 4) := by
  have h8 := leftLevel_completes (k := 8) (binary_joins (by omega) (by omega))
    (unaryLevel_completes henter)
  have h7 := leftLevel_completes (k := 7) (binary_joins (by omega) (by omega)) h8
  have h6 := leftLevel_completes (k := 6) (binary_joins (by omega) (by omega)) h7
  have h5 := leftLevel_completes (k := 5) (binary_joins (by omega) (by omega)) h6
  exact leftLevel_completes (k := 4) (binary_joins (by omega) (by omega)) h5

lemma conditionalLevel_completes
    (henter : ∀ entry, Completes fuel (enter entry) (Reading inside entry.rung)) :
    Completes (fuel + 1) (conditionalLevel enter inside fuel) (Reading inside 3) := by
  intro e ts rest h hlen
  rw [conditionalLevel]
  by_cases hrank : 4 ≤ e.rank
  · have hreads := equalityLevel_completes henter e ts rest
      ⟨h.spells, hrank, ends_of_le h.ends (by omega), h.closes⟩ hlen
    exact Reads.last hreads (Reads.absent (avoids_rung_of_ends h.ends) Reads.pure)
  · have h3 := h.rank
    cases e with
    | conditional condition yes no =>
        obtain ⟨a, question, b, colon, c, rfl, hquestion, hcolon, hcond, hyes, hno, hrank'⟩ := h.spells
        have hend : Ends 0 rest := h.closes rfl
        have hcolon' : Ends 0 (colon :: c ++ rest) := ends_of_rung_none (by rw [hcolon]; rfl)
        have hquestion' : Ends 4 (question :: (b ++ colon :: c) ++ rest) := by
          refine ends_cons.mpr fun r hr => ?_
          rw [hquestion] at hr
          cases hr
          decide
        have hclosed : condition.endsOpen = true → Ends 0 (question :: (b ++ colon :: c) ++ rest) := by
          intro hopen
          have h4 : 4 ≤ condition.rank := hrank'
          have := rank_le_of_endsOpen hcond hopen
          omega
        simp only [List.append_assoc, List.cons_append, List.length_append, List.length_cons] at hlen
        have hreads := equalityLevel_completes henter condition a _
          ⟨hcond, hrank', hquestion', hclosed⟩ (by
            simp only [List.append_assoc, List.cons_append, List.length_append, List.length_cons]
            omega)
        have hreads' := henter .expression yes b _ ⟨hyes, Nat.zero_le _, hcolon', fun _ => hcolon'⟩
          (by simp only [List.cons_append, List.length_append, List.length_cons]; omega)
        have hreads'' := henter .expression no c rest ⟨hno, Nat.zero_le _, hend, fun _ => hend⟩
          (by rw [List.length_append]; omega)
        exact Reads.bind hreads (Reads.found (by simp [hquestion]) (Reads.bind hreads'
          (Reads.expect hcolon (Reads.last hreads'' Reads.pure))))
    | binary left op right =>
        have := binary_rank h.spells
        omega
    | logical left op right =>
        have := logical_rank h.spells
        omega
    | _ => simp [Expr.rank] at hrank h3

lemma disjunctionLevel_completes
    (henter : ∀ entry, Completes fuel (enter entry) (Reading inside entry.rung)) :
    Completes (fuel + 1) (disjunctionLevel enter inside fuel) (Reading inside 1) := by
  have h2 := leftLevel_completes (k := 2) (logical_joins (by omega) (by omega))
    (conditionalLevel_completes henter)
  exact leftLevel_completes (k := 1) (logical_joins (by omega) (by omega)) h2

/-- What an assignment is made of. -/
lemma assignment_cases (hspells : e.Spells inside ts) (hrank : e.rank = 0) :
    ∃ target equals value a b, ts = a ++ equals :: b ∧ equals.kind ∈ assignmentKinds
      ∧ target.Spells inside a ∧ target.rank = 10 ∧ value.Spells inside b
      ∧ assignment? inside target equals value = some e := by
  cases e with
  | assign ref value =>
      obtain ⟨equals, b, rfl, hfits, hvalue⟩ := hspells
      have htarget : (Expr.variable ref).Spells inside [ref.name] := by
        exact ⟨rfl, hfits⟩
      rcases hvalue with ⟨hequals, hvalue⟩ | hcompound
      · refine ⟨.variable ref, equals, value, [ref.name], b, rfl, ?_, htarget, rfl, hvalue, ?_⟩
        · simp [hequals, assignmentKinds]
        · simp [assignment?, hequals]
      · cases value with
        | binary left op right =>
            obtain ⟨hkind, rfl, rfl, hright⟩ := hcompound
            have hmem : equals.kind ∈ assignmentKinds := List.mem_cons_of_mem _ (by
              simpa [Kind.isCompound] using hkind)
            refine ⟨.variable ref, equals, right, [ref.name], b, rfl, hmem, htarget, rfl, hright, ?_⟩
            rcases assignment?_variable inside ref right hmem with ⟨hequal, -⟩ | ⟨-, h⟩
            · rw [hequal] at hkind
              exact absurd hkind (by decide)
            · exact h
        | _ =>
            rw [Expr.SpellsCompound] at hcompound
            · exact hcompound.elim
            · rintro _ _ _ ⟨⟩
  | set object name value flag =>
      obtain ⟨a, dot, equals, b, rfl, hdot, hequals, hobject, hvalue, hrank', hname, rfl⟩ := hspells
      refine ⟨.get object name flag, equals, value, a ++ [dot, name], b, by simp, ?_, ?_, rfl, hvalue,
        ?_⟩
      · simp [hequals, assignmentKinds]
      · rw [Expr.Spells]
        exact ⟨a, dot, rfl, hdot, hobject, hrank', hname, rfl⟩
      · simp [assignment?, hequals]
  | binary left op right =>
      have := binary_rank hspells
      omega
  | logical left op right =>
      have := logical_rank hspells
      omega
  | _ => simp [Expr.rank] at hrank

lemma assignmentLevel_completes
    (henter : ∀ entry, Completes fuel (enter entry) (Reading inside entry.rung)) :
    Completes (fuel + 1) (assignmentLevel enter inside fuel) (Reading inside 0) := by
  intro e ts rest h hlen
  rw [assignmentLevel]
  by_cases hrank : 1 ≤ e.rank
  · have hreads := disjunctionLevel_completes henter e ts rest
      ⟨h.spells, hrank, ends_of_le h.ends (Nat.zero_le 1), h.closes⟩ hlen
    exact Reads.last hreads (Reads.absent (avoids_rung_of_ends h.ends) Reads.pure)
  · obtain ⟨target, equals, value, a, b, rfl, hequals, htarget, hrank', hvalue, hassign⟩ :=
      assignment_cases h.spells (by omega)
    have hequals' : Ends 1 (equals :: b ++ rest) := by
      refine ends_cons.mpr fun r hr => ?_
      have := (rung_eq_some (k := 0)).mpr hequals
      rw [this] at hr
      cases hr
      decide
    have hclosed : target.endsOpen = true → Ends 0 (equals :: b ++ rest) := by
      intro hopen
      have := rank_le_of_endsOpen htarget hopen
      omega
    simp only [List.append_assoc, List.cons_append, List.length_append, List.length_cons] at hlen
    have hreads := disjunctionLevel_completes henter target a _
      ⟨htarget, by omega, hequals', hclosed⟩
      (by simp only [List.cons_append, List.length_append, List.length_cons]; omega)
    have hreads' := henter .expression value b rest
      ⟨hvalue, Nat.zero_le _, h.ends, fun _ => h.ends⟩ (by rw [List.length_append]; omega)
    refine Reads.bind hreads (Reads.found hequals (Reads.last hreads' ?_))
    rw [hassign]
    exact Reads.pure

/-- **Every spelling of an expression is read**, at each of the levels at which the grammar enters
itself again. -/
theorem expressionAt_completes (inside : Bool) : ∀ (n : Nat) (entry : Entry),
    Completes n (expressionAt inside n entry) (Reading inside entry.rung)
  | 0, _ => fun _ _ _ _ hlen => absurd hlen (Nat.not_lt_zero _)
  | n + 1, .expression => assignmentLevel_completes (expressionAt_completes inside n)
  | n + 1, .disjunction => disjunctionLevel_completes (expressionAt_completes inside n)
  | n + 1, .unary => unaryLevel_completes (expressionAt_completes inside n)

end KScript.Parser

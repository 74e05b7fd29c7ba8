import KScript.Proofs.Parser.Ladder

/-!
# Expressions are read as they are spelled

What each level of the grammar reads, from primaries up to assignments: if it answers without a
complaint, then the tokens that it has read spell the answer (`Reading`).  A level is proved from the
next tighter one, and `expressionAt_meets` ties the knot over the number of times that the grammar
enters itself again.
-/

namespace KScript.Parser

variable {n k fuel : Nat} {inside : Bool} {enter : Entry → Parser Tree}

/-! ## Levels of operators -/

/-- Reading on at a level: the operand read so far grows to the left of what follows. -/
lemma leftRest_meets {join : Tree → Token → Tree → Tree} {operand : Parser Tree}
    (hjoin : Joins inside k join) (hoperand : Meets n operand (Reading inside (k + 1))) :
    ∀ (fuel : Nat) (left : Tree), fuel < n →
      Meets (fuel + 1) (leftRest operand (rungKinds k) join fuel left) fun e used rest =>
        ∀ a, left.Spells inside a → k ≤ left.rank → Ends (k + 1) (used ++ rest) →
          (left.endsOpen = true → Ends 0 (used ++ rest)) → Reading inside k e (a ++ used) rest
  | 0, left, _ => by
      intro c hc
      have hnil : c.rest = [] := List.length_eq_zero_iff.mp (by omega)
      refine ⟨[], [], rfl, (List.append_nil _).symm, fun _ a hl hk _ hopen => ?_⟩
      rw [List.append_nil, hnil]
      exact ⟨hl, hk, ends_nil, fun _ => ends_nil⟩
  | fuel + 1, left, hn => by
      rw [leftRest]
      refine Meets.imp (Meets.accept
        (fun op _ => Meets.bind (hoperand.mono (by omega)) fun right =>
          leftRest_meets hjoin hoperand fuel (join left op right) (by omega))
        Meets.pure) ?_
      rintro e used rest (⟨op, v, rfl, hop, right, u, w, rfl, hright, h⟩ | ⟨havoid, rfl, rfl⟩) a hl
        hk hends hopen
      · -- an operator: `left` and what follows it become the new left operand
        have hclosed : left.endsOpen = false := by
          by_contra hne
          have h0 := ends_cons.mp (hopen (by simpa using hne)) k (rung_eq_some.mpr hop)
          omega
        have hnew := h (a ++ op :: u) (hjoin.spells hop hl hright.spells hk hright.rank hclosed)
          (Nat.le_of_eq (hjoin.rank hop).symm) hright.ends
          (fun h => hright.closes ((hjoin.endsOpen hright.rank hright.spells).mp h))
        simpa using hnew
      · rw [List.append_nil]
        exact ⟨hl, hk, ends_of_avoids_rung hends havoid, hopen⟩

/-- A level of operators reads one rung below its operands. -/
lemma leftLevel_meets {join : Tree → Token → Tree → Tree} {operand : Parser Tree}
    (hjoin : Joins inside k join) (hoperand : Meets (fuel + 1) operand (Reading inside (k + 1))) :
    Meets (fuel + 1) (leftLevel fuel (rungKinds k) join operand) (Reading inside k) := by
  rw [leftLevel]
  refine Meets.imp (Meets.bind hoperand fun left =>
    leftRest_meets hjoin hoperand fuel left (Nat.lt_succ_self fuel)) ?_
  rintro e used rest ⟨left, u, v, rfl, hleft, h⟩
  exact h u hleft.spells (Nat.le_of_succ_le hleft.rank) hleft.ends hleft.closes

/-! ## Primaries and what follows them -/

/-- A list of expressions between brackets. -/
lemma list_meets {listing : Listing} {close : Kind} {entry : Entry}
    (henter : ∀ entry, Meets fuel (enter entry) (Reading inside entry.rung)) :
    Meets fuel (listUpTo listing close fuel (enter entry)) fun items used _ =>
      ∃ texts, Commas texts used ∧ items.length ≤ Listing.limit
        ∧ Expr.SpellsEach inside items texts ∧ ∀ e ∈ items, entry.rung ≤ e.rank := by
  refine Meets.imp (Meets.listUpTo (henter entry)) ?_
  rintro items used rest ⟨texts, hcommas, hlen, hall⟩
  refine ⟨texts, hcommas, hlen, spellsEach_of_forall (fun e ts => ?_) hall, ?_⟩
  · rintro ⟨tail, h⟩
    exact h.spells
  · clear hcommas hlen
    induction hall with
    | nil => intro e he; exact absurd he List.not_mem_nil
    | cons h _ ih =>
        obtain ⟨tail, h⟩ := h
        intro e he
        rcases List.mem_cons.mp he with rfl | he
        · exact h.rank
        · exact ih e he

/-- A primary that is one token. -/
lemma word_result {c : Cursor} {t : Token} {tail : List Token} {e : Tree}
    (hrest : c.rest = t :: tail) (h : e.Spells inside [t]) (hrank : e.rank = 10) :
    Result c (fun (r : Tree × Token) used _ => r.1.Spells inside used ∧ r.1.rank = 10)
      ((advance >>= fun _ => Pure.pure (e, t)) c) := by
  refine Result.imp ?_ (Result.advance hrest (Nat.lt_succ_self _) Meets.pure)
  rintro _ _ _ - ⟨v, rfl, rfl, rfl⟩
  exact ⟨h, hrank⟩

/-- Primaries are read as they are spelled. -/
lemma primary_meets (henter : ∀ entry, Meets fuel (enter entry) (Reading inside entry.rung)) :
    Meets (fuel + 1) (primary enter fuel) fun r used _ =>
      r.1.Spells inside used ∧ r.1.rank = 10 := by
  intro c hc
  rw [primary]
  match hrest : c.rest with
  | [] =>
      have hpeek : peek? c = .ok none c := by simp [peek?, hrest]
      rw [bind_ok hpeek]
      exact Meets.missing (n := fuel + 1) c hc
  | t :: tail =>
      have hpeek : peek? c = .ok (some t) c := by simp [peek?, hrest]
      have hlen : tail.length < fuel := by
        rw [hrest, List.length_cons] at hc
        omega
      rw [bind_ok hpeek]
      dsimp only
      -- one case for each kind of token; most of them begin no primary
      generalize hkind : t.kind = kind
      cases kind
      case falseWord | trueWord | zilchWord | infWord | number | string =>
        exact word_result hrest (by simp [Expr.Spells, Token.denotes?, hkind]) rfl
      case thisWord =>
        exact word_result hrest (by simp [Expr.Spells, Expr.Fits, unresolved, hkind]) rfl
      case identifier =>
        exact word_result hrest (by simp [Expr.Spells, Expr.Fits, unresolved, hkind]) rfl
      case leftSquare =>
        refine (Result.advance hrest hlen (Meets.bind (list_meets henter) fun items =>
          Meets.expect fun close _ => Meets.pure)).imp ?_
        rintro _ _ rest - ⟨v, rfl, items, u, w, rfl, ⟨texts, hcommas, hlen, hall, hrank⟩,
          close, _, rfl, hclose, rfl, rfl⟩
        refine ⟨?_, rfl⟩
        exact ⟨t, u, close, texts, rfl, hkind, hclose, hcommas, hall, hlen, hrank⟩
      case superWord =>
        refine (Result.advance hrest hlen (Meets.expect fun dot _ =>
          Meets.expect fun method _ => Meets.pure)).imp ?_
        rintro _ _ rest - ⟨v, rfl, dot, _, rfl, hdot, method, _, rfl, hmethod, rfl, rfl⟩
        refine ⟨?_, rfl⟩
        exact ⟨dot, rfl, hdot, hkind, hmethod⟩
      case leftParen =>
        refine (Result.advance hrest hlen (Meets.bind (henter .expression) fun inner =>
          Meets.expect fun close _ => Meets.pure)).imp ?_
        rintro _ _ rest - ⟨v, rfl, inner, u, w, rfl, hinner, close, _, rfl, hclose, rfl, rfl⟩
        refine ⟨?_, rfl⟩
        exact ⟨t, u, close, rfl, hkind, hclose, hinner.spells⟩
      all_goals exact Meets.missing (n := fuel + 1) c hc

/-- The target of a counting step has to be a variable. -/
lemma stepTarget_meets {word : Token} (r : Tree × Token) :
    Meets n (match r with
      | (.variable ref, _) => Pure.pure (.step (directionOf word) ref)
      | (target, last) => report (some last) .stepTarget >>= fun _ => Pure.pure target)
      fun e used _ => used = [] ∧ ∃ ref, r.1 = .variable ref ∧ e = .step (directionOf word) ref := by
  obtain ⟨target, last⟩ := r
  cases target with
  | «variable» ref =>
      refine Meets.imp Meets.pure ?_
      rintro e used rest ⟨rfl, rfl⟩
      exact ⟨rfl, ref, rfl, rfl⟩
  | _ => exact Meets.report Meets.pure

/-- A primary, or a counting step. -/
lemma stepped_meets (henter : ∀ entry, Meets fuel (enter entry) (Reading inside entry.rung)) :
    Meets (fuel + 1) (stepped enter fuel) fun e used _ => e.Spells inside used ∧ e.rank = 10 := by
  rw [stepped]
  refine Meets.imp (Meets.accept (fun word _ => Meets.bind
    (Meets.mono (primary_meets henter) (Nat.le_succ fuel)) fun r => stepTarget_meets r)
    (Meets.bind (primary_meets henter) fun r => Meets.pure)) ?_
  rintro e used rest (⟨word, v, rfl, hword, r, u, w, rfl, ⟨hr, -⟩, rfl, ref, href, rfl⟩
    | ⟨-, r, u, v, rfl, ⟨hr, hrank⟩, rfl, rfl⟩)
  · rw [href, Expr.Spells] at hr
    obtain ⟨rfl, hfits⟩ := hr
    refine ⟨?_, rfl⟩
    refine ⟨word, rfl, ?_, hfits⟩
    rcases List.mem_pair.mp hword with h | h <;> simp [directionOf, Direction.kind, h]
  · rw [List.append_nil]
    exact ⟨hr, hrank⟩

/-- One call or one property, after its opening token. -/
lemma suffix_meets (henter : ∀ entry, Meets n (enter entry) (Reading inside entry.rung))
    (hfuel : fuel + 1 ≤ n) {opener : Token} {e : Tree} {next : Tree → Parser Tree}
    {Q : Tree → Tree → List Token → List Token → Prop} (hnext : ∀ e', Meets (fuel + 1) (next e') (Q e'))
    (hopener : opener.kind ∈ [Kind.leftParen, .dot]) :
    Meets (fuel + 1)
      (if opener.kind = .leftParen then
        listUpTo .arguments .rightParen n (enter .expression) >>= fun args =>
          expect .rightParen .argumentsEnd >>= fun paren => next (.call e paren args)
      else expect .identifier .propertyName >>= fun name => next (.get e name inside))
      fun r used rest => ∃ e' u v, used = u ++ v
        ∧ (∀ a, e.Spells inside a → e.rank = 10 →
            e'.Spells inside (a ++ opener :: u) ∧ e'.rank = 10) ∧ Q e' r v rest := by
  split
  · next hleft =>
      refine Meets.imp (Meets.bind (Meets.mono (list_meets henter) hfuel) fun args =>
        Meets.expect fun paren _ => hnext (.call e paren args)) ?_
      rintro r used rest ⟨args, u, w, rfl, ⟨texts, hcommas, hlen, hall, -⟩, paren, v, rfl, hparen, hQ⟩
      refine ⟨.call e paren args, u ++ [paren], v, by simp, fun a he hrank => ⟨?_, rfl⟩, hQ⟩
      exact ⟨a, opener, u, texts, rfl, hleft, he, hcommas, hall, hrank, hparen, hlen⟩
  · next hleft =>
      refine Meets.imp (Meets.expect fun name _ => hnext (.get e name inside)) ?_
      rintro r used rest ⟨name, v, rfl, hname, hQ⟩
      have hdot : opener.kind = .dot := by
        rcases List.mem_pair.mp hopener with h | h
        · exact absurd h hleft
        · exact h
      refine ⟨.get e name inside, [name], v, rfl, fun a he hrank => ⟨?_, rfl⟩, hQ⟩
      exact ⟨a, opener, rfl, hdot, he, hrank, hname, rfl⟩

/-- Reading on with calls and properties. -/
lemma suffixes_meets (henter : ∀ entry, Meets n (enter entry) (Reading inside entry.rung)) :
    ∀ (fuel : Nat) (e : Tree), fuel ≤ n →
      Meets (fuel + 1) (suffixes enter inside n fuel e) fun e' used rest =>
        ∀ a, e.Spells inside a → e.rank = 10 →
          e'.Spells inside (a ++ used) ∧ e'.rank = 10 ∧ Ends 10 rest
  | 0, e, _ => by
      intro c hc
      have hnil : c.rest = [] := List.length_eq_zero_iff.mp (by omega)
      refine ⟨[], [], rfl, (List.append_nil _).symm, fun _ a he hrank => ?_⟩
      rw [List.append_nil, hnil]
      exact ⟨he, hrank, ends_nil⟩
  | fuel + 1, e, hn => by
      rw [suffixes]
      refine Meets.imp (Meets.accept (fun opener hopener => suffix_meets henter (by omega)
        (fun e' => suffixes_meets henter fuel e' (by omega)) hopener) Meets.pure) ?_
      rintro e' used rest (⟨opener, v, rfl, hopener, x, u, w, rfl, hx, h⟩ | ⟨havoid, rfl, rfl⟩) a
        he hrank
      · obtain ⟨hspells, hrank'⟩ := hx a he hrank
        simpa using h (a ++ opener :: u) hspells hrank'
      · rw [List.append_nil]
        refine ⟨he, hrank, fun t ht r hr => ?_⟩
        have hne : r ≠ 10 := fun h10 => havoid t ht (rung_eq_some.mp (h10 ▸ hr))
        have := rung_le_ten hr
        omega

/-! ## From unary operators to assignments -/

/-- Unary operators, and what is tighter. -/
lemma unaryLevel_meets (henter : ∀ entry, Meets fuel (enter entry) (Reading inside entry.rung)) :
    Meets (fuel + 1) (unaryLevel enter inside fuel) (Reading inside 9) := by
  rw [unaryLevel]
  refine Meets.imp (Meets.accept
    (fun op _ => Meets.bind (henter .unary) fun operand => Meets.pure)
    (Meets.bind (stepped_meets henter) fun e =>
      suffixes_meets henter fuel e (Nat.le_refl fuel))) ?_
  rintro e used rest (⟨op, v, rfl, hop, operand, u, w, rfl, h, rfl, rfl⟩
    | ⟨-, x, u, v, rfl, ⟨hx, hrank⟩, h⟩)
  · refine ⟨?_, Nat.le_refl 9, h.ends, fun hopen => by simp [Expr.endsOpen] at hopen⟩
    exact ⟨u, by rw [List.append_nil], h.spells, hop, h.rank⟩
  · obtain ⟨hspells, hrank', hends⟩ := h u hx hrank
    refine ⟨hspells, by omega, ?_, fun hopen => ?_⟩
    · exact ends_of_avoids_rung hends fun t _ => List.not_mem_nil
    · have := rank_le_of_endsOpen hspells hopen
      omega

/-- Powers, products, sums, comparisons and equality. -/
lemma equalityLevel_meets (henter : ∀ entry, Meets fuel (enter entry) (Reading inside entry.rung)) :
    Meets (fuel + 1) (equalityLevel enter inside fuel) (Reading inside 4) := by
  have h8 := leftLevel_meets (k := 8) (binary_joins (by omega) (by omega)) (unaryLevel_meets henter)
  have h7 := leftLevel_meets (k := 7) (binary_joins (by omega) (by omega)) h8
  have h6 := leftLevel_meets (k := 6) (binary_joins (by omega) (by omega)) h7
  have h5 := leftLevel_meets (k := 5) (binary_joins (by omega) (by omega)) h6
  exact leftLevel_meets (k := 4) (binary_joins (by omega) (by omega)) h5

/-- Conditionals: the branches are expressions of any rank. -/
lemma conditionalLevel_meets
    (henter : ∀ entry, Meets fuel (enter entry) (Reading inside entry.rung)) :
    Meets (fuel + 1) (conditionalLevel enter inside fuel) (Reading inside 3) := by
  rw [conditionalLevel]
  refine Meets.imp (Meets.bind (equalityLevel_meets henter) fun condition => Meets.accept
    (fun question _ => Meets.bind (henter .expression) fun yes =>
      Meets.expect fun colon _ => Meets.bind (henter .expression) fun no => Meets.pure)
    Meets.pure) ?_
  rintro e used rest ⟨condition, a, _, rfl, hcond, h⟩
  rcases h with ⟨question, _, rfl, hq, yes, b, _, rfl, hyes, colon, _, rfl, hcolon, no, c, _, rfl,
    hno, rfl, rfl⟩ | ⟨havoid, rfl, rfl⟩
  · refine ⟨?_, Nat.le_refl 3, ends_of_le hno.ends (Nat.zero_le 3), fun _ => hno.ends⟩
    exact ⟨a, question, b, colon, c, by simp, List.mem_singleton.mp hq, hcolon, hcond.spells,
      hyes.spells, hno.spells, hcond.rank⟩
  · rw [List.append_nil]
    exact ⟨hcond.spells, Nat.le_of_succ_le hcond.rank, ends_of_avoids_rung hcond.ends havoid,
      hcond.closes⟩

/-- `and` and `or`. -/
lemma disjunctionLevel_meets
    (henter : ∀ entry, Meets fuel (enter entry) (Reading inside entry.rung)) :
    Meets (fuel + 1) (disjunctionLevel enter inside fuel) (Reading inside 1) := by
  have h2 := leftLevel_meets (k := 2) (logical_joins (by omega) (by omega))
    (conditionalLevel_meets henter)
  exact leftLevel_meets (k := 1) (logical_joins (by omega) (by omega)) h2

/-- Only a variable and, with a plain `=`, a property can be assigned to. -/
lemma assignment?_cases {target value e : Tree} {equals : Token}
    (h : assignment? inside target equals value = some e) :
    (∃ ref, target = .variable ref) ∨ ∃ object name flag, target = .get object name flag
      ∧ equals.kind = .equal ∧ e = .set object name value inside := by
  unfold assignment? at h
  split at h
  · next ref _ => exact Or.inl ⟨ref, rfl⟩
  · next ref => exact Or.inl ⟨_, rfl⟩
  · next object name flag hkind => exact Or.inr ⟨object, name, flag, rfl, hkind, by cases h; rfl⟩
  · cases h

/-- An assignment is spelled by its target and its value, with the token that assigns between. -/
lemma assignment?_spells {target value e : Tree} {equals : Token} {a b : List Token}
    (hequals : equals.kind ∈ assignmentKinds) (htarget : target.Spells inside a)
    (hvalue : value.Spells inside b) (h : assignment? inside target equals value = some e) :
    e.Spells inside (a ++ equals :: b) ∧ e.endsOpen = false := by
  rcases assignment?_cases h with ⟨ref, rfl⟩ | ⟨object, name, flag, rfl, hkind, rfl⟩
  · obtain ⟨rfl, hfits⟩ : a = [ref.name] ∧ Expr.Fits inside (.variable ref) := by
      simpa only [Expr.Spells] using htarget
    rcases assignment?_variable inside ref value hequals with
      ⟨hkind, h'⟩ | ⟨hkind, h'⟩
    · obtain rfl : Expr.assign ref value = e := by simpa [h'] using h
      refine ⟨?_, rfl⟩
      exact ⟨equals, b, rfl, hfits, Or.inl ⟨hkind, hvalue⟩⟩
    · obtain rfl : Expr.assign ref (.binary (.variable ref) equals.operatorOf value) = e := by
        simpa [h'] using h
      refine ⟨?_, rfl⟩
      exact ⟨equals, b, rfl, hfits, Or.inr ⟨hkind, rfl, rfl, hvalue⟩⟩
  · obtain ⟨a', dot, rfl, hdot, hobject, hrank, hname, -⟩ := htarget
    refine ⟨?_, rfl⟩
    exact ⟨a', dot, equals, b, by simp, hdot, hkind, hobject, hvalue, hrank, hname, rfl⟩

/-- Assigning, once target and value have been read. -/
lemma assigned_meets {target value : Tree} {equals : Token} :
    Meets n (match assignment? inside target equals value with
      | some e => Pure.pure e
      | none => report (some equals) .assignmentTarget >>= fun _ => Pure.pure target)
      fun e used _ => used = [] ∧ assignment? inside target equals value = some e := by
  split
  · next e' h =>
      refine Meets.imp Meets.pure ?_
      rintro e used rest ⟨rfl, rfl⟩
      exact ⟨rfl, h⟩
  · exact Meets.report Meets.pure

/-- Assignments, which lean to the right. -/
lemma assignmentLevel_meets
    (henter : ∀ entry, Meets fuel (enter entry) (Reading inside entry.rung)) :
    Meets (fuel + 1) (assignmentLevel enter inside fuel) (Reading inside 0) := by
  rw [assignmentLevel]
  refine Meets.imp (Meets.bind (disjunctionLevel_meets henter) fun target => Meets.accept
    (fun equals _ => Meets.bind (henter .expression) fun value => assigned_meets)
    Meets.pure) ?_
  rintro e used rest ⟨target, a, _, rfl, htarget, h⟩
  rcases h with ⟨equals, _, rfl, hequals, value, b, _, rfl, hvalue, rfl, h⟩ | ⟨havoid, rfl, rfl⟩
  · obtain ⟨hspells, hopen⟩ := assignment?_spells hequals htarget.spells hvalue.spells h
    rw [List.append_nil]
    exact ⟨hspells, Nat.zero_le _, hvalue.ends, fun h => by simp [hopen] at h⟩
  · rw [List.append_nil]
    exact ⟨htarget.spells, Nat.zero_le _, ends_of_avoids_rung htarget.ends havoid, htarget.closes⟩

/-- **Expressions are read as they are spelled**, at each of the levels at which the grammar enters
itself again. -/
theorem expressionAt_meets (inside : Bool) :
    ∀ (n : Nat) (entry : Entry), Meets n (expressionAt inside n entry) (Reading inside entry.rung)
  | 0, _ => Meets.zero
  | n + 1, .expression => assignmentLevel_meets (expressionAt_meets inside n)
  | n + 1, .disjunction => disjunctionLevel_meets (expressionAt_meets inside n)
  | n + 1, .unary => unaryLevel_meets (expressionAt_meets inside n)

end KScript.Parser

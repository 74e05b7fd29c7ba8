import KScript.Proofs.Parser.Reading

/-!
# Fuel and giving up

A parser carries fuel so that its recursion ends.  `Stable read n p q` says that with fewer than `n` tokens
in front of it the fuel is never what ends it: `p` and `q`, which are the same parser with different fuel,
have the same outcome.  It also says what every outcome has in common.  The cursor has only moved forward
(`Cursor.Advances`), and a parser that gives up has complained last of all about the place where it stopped
(`Diagnostic.Blames`).

Here are the rules to put such statements together, and with them the grammar of expressions
(`expressionAt_stable`).
-/

namespace KScript

/-- The cursor has only moved forward: tokens were read, and complaints were added. -/
structure Cursor.Advances (c d : Cursor) : Prop where
  rest : d.rest <:+ c.rest
  reports : c.reports <+: d.reports
  endLine : d.endLine = c.endLine

namespace Cursor.Advances

variable {c d e : Cursor}

lemma refl (c : Cursor) : c.Advances c := ⟨List.suffix_rfl, List.prefix_rfl, rfl⟩

lemma trans (h : c.Advances d) (h' : d.Advances e) : c.Advances e :=
  ⟨h'.rest.trans h.rest, h.reports.trans h'.reports, h'.endLine.trans h.endLine⟩

lemma length_le (h : c.Advances d) : d.rest.length ≤ c.rest.length := h.rest.length_le

/-- Reading one token. -/
lemma token {t : Token} {tail : List Token} (h : c.rest = t :: tail) :
    c.Advances { c with rest := tail } :=
  ⟨h ▸ List.suffix_cons t tail, List.prefix_rfl, rfl⟩

/-- Complaining. -/
lemma report (c : Cursor) (d : Diagnostic) : c.Advances { c with reports := c.reports ++ [d] } :=
  ⟨List.suffix_rfl, List.prefix_append _ _, rfl⟩

end Cursor.Advances

/-- The diagnostic tells why reading stopped at the cursor: something else should come next, or the jump that
was read last, out of `tokens`, stands in no loop. -/
inductive Diagnostic.Blames (tokens : List Token) (d : Cursor) : Diagnostic → Prop where
  | next {t : Token} {tail : List Token} {what : Expected} (h : d.rest = t :: tail) :
      Blames tokens d (.atToken t (.missing what))
  | ended {what : Expected} (h : d.rest = []) : Blames tokens d ⟨d.endLine, .atEnd, .missing what⟩
  | jump {t : Token} {jump : Jump} (h : t :: d.rest <:+ tokens) :
      Blames tokens d (.atToken t (.jumpOutsideLoop jump))

lemma Diagnostic.Blames.mono {tokens more : List Token} {d : Cursor} {own : Diagnostic}
    (h : own.Blames tokens d) (hmore : tokens <:+ more) : own.Blames more d := by
  cases h with
  | next h => exact .next h
  | ended h => exact .ended h
  | jump h => exact .jump (h.trans hmore)

namespace Parser

variable {α β : Type} {n m : Nat} {c d : Cursor} {read : List Token}

/-- What an outcome says of the cursor `c` before it, where `tokens` were in front of the parser. -/
def Stops (tokens : List Token) (c : Cursor) : EStateM.Result Abort Cursor α → Prop
  | .ok _ d => c.Advances d
  | .error _ d => c.Advances d
      ∧ ∃ told own, c.reports <+: told ∧ d.reports = told ++ [own] ∧ own.Blames tokens d

/-- What is said of a later outcome, seen from an earlier cursor. -/
lemma Stops.after {tokens : List Token} {r : EStateM.Result Abort Cursor α} (h : c.Advances d)
    (htokens : d.rest <:+ tokens) (hr : Stops d.rest d r) : Stops tokens c r := by
  cases r with
  | ok a e => exact h.trans hr
  | error x e =>
      obtain ⟨hadvances, told, own, htold, hown, hblames⟩ := hr
      exact ⟨h.trans hadvances, told, own, h.reports.trans htold, hown, hblames.mono htokens⟩

/-- With fewer than `n` tokens in front of them and `read` just behind, the parsers have the same outcome,
which says where they stopped. -/
def Stable (read : List Token) (n : Nat) (p q : Parser α) : Prop :=
  ∀ c : Cursor, c.rest.length < n → p c = q c ∧ Stops (read ++ c.rest) c (p c)

namespace Stable

variable {p q : Parser α} {f g : α → Parser β}

lemma zero : Stable read 0 p q := fun _ h => absurd h (Nat.not_lt_zero _)

lemma mono (h : Stable read n p q) (hm : m ≤ n) : Stable read m p q :=
  fun c hc => h c (Nat.lt_of_lt_of_le hc hm)

lemma weaken (h : Stable [] n p q) : Stable read n p q := fun c hc => by
  obtain ⟨hsame, hstops⟩ := h c hc
  exact ⟨hsame, hstops.after (.refl c) (List.suffix_append _ _)⟩

/-- A parser that answers after a step forward. -/
lemma steps (h : ∀ c, ∃ a d, p c = .ok a d ∧ c.Advances d) : Stable read n p p := fun c _ => by
  obtain ⟨a, d, hp, hadvances⟩ := h c
  refine ⟨rfl, ?_⟩
  rw [hp]
  exact hadvances

lemma pure {a : α} : Stable read n (Pure.pure a) (Pure.pure a) := steps fun c => ⟨a, c, rfl, .refl c⟩

/-- **One parser after the other.** -/
lemma bind (hp : Stable read n p q) (hf : ∀ a, Stable [] n (f a) (g a)) :
    Stable read n (p >>= f) (q >>= g) := by
  intro c hc
  obtain ⟨hsame, hstops⟩ := hp c hc
  match hr : p c with
  | .error e d =>
      rw [bind_error hr, bind_error (hsame ▸ hr)]
      rw [hr] at hstops
      exact ⟨rfl, hstops⟩
  | .ok a d =>
      rw [hr] at hstops
      have hadvances : c.Advances d := hstops
      obtain ⟨hsame', hstops'⟩ := hf a d (Nat.lt_of_le_of_lt hadvances.length_le hc)
      rw [bind_ok hr, bind_ok (hsame ▸ hr)]
      exact ⟨hsame', hstops'.after hadvances (hadvances.rest.trans (List.suffix_append _ _))⟩

lemma map {h : α → β} (hp : Stable read n p q) : Stable read n (h <$> p) (h <$> q) := by
  rw [← bind_pure_comp, ← bind_pure_comp]
  exact hp.bind fun _ => pure

/-! ## Single tokens -/

lemma peek : Stable read n peek? peek? := steps fun c => ⟨_, c, rfl, .refl c⟩

lemma nextIs {kind : Kind} : Stable read n (Parser.nextIs kind) (Parser.nextIs kind) := steps fun c => by
  rcases avoids_or [kind] c.rest with h | ⟨t, tail, hrest, h⟩
  · exact ⟨_, c, nextIs_false h, .refl c⟩
  · exact ⟨_, c, nextIs_true hrest (List.mem_singleton.mp h), .refl c⟩

lemma report {token : Option Token} {complaint : Complaint} :
    Stable read n (Parser.report token complaint) (Parser.report token complaint) :=
  steps fun c => ⟨(), _, rfl, .report c _⟩

lemma missing {what : Expected} : Stable read n (Parser.missing what : Parser α) (Parser.missing what) := by
  intro c _
  refine ⟨rfl, .report c _, c.reports, _, List.prefix_rfl, rfl, ?_⟩
  match hrest : c.rest with
  | [] => exact .ended rfl
  | t :: tail => exact .next rfl

/-- A jump that was just read is refused. -/
lemma jump {t : Token} {jump : Jump} : Stable [t] n
    (Parser.fail (some t) (.jumpOutsideLoop jump) : Parser α) (Parser.fail (some t) (.jumpOutsideLoop jump)) :=
  fun c _ => ⟨rfl, .report c _, c.reports, _, List.prefix_rfl, rfl, .jump List.suffix_rfl⟩

/-- **Looking for a token.**  If it is there it is read, and one token less is left. -/
lemma accept {kinds : List Kind} {f g : Option Token → Parser β}
    (hsome : ∀ t, t.kind ∈ kinds → Stable [t] n (f (some t)) (g (some t)))
    (hnone : Stable [] (n + 1) (f none) (g none)) :
    Stable [] (n + 1) (accept? kinds >>= f) (accept? kinds >>= g) := by
  intro c hc
  rcases avoids_or kinds c.rest with h | ⟨t, tail, hrest, h⟩
  · rw [bind_ok (accept?_none h), bind_ok (accept?_none h)]
    exact hnone c hc
  · rw [bind_ok (accept?_some hrest h), bind_ok (accept?_some hrest h)]
    have hlen : tail.length < n := by
      rw [hrest, List.length_cons] at hc
      omega
    obtain ⟨hsame, hstops⟩ := hsome t h { c with rest := tail } hlen
    refine ⟨hsame, ?_⟩
    rw [List.nil_append, hrest]
    cases hr : f (some t) { c with rest := tail } with
    | ok a e =>
        rw [hr] at hstops
        exact (Cursor.Advances.token hrest).trans hstops
    | error x e =>
        rw [hr] at hstops
        obtain ⟨hadvances, htold⟩ := hstops
        exact ⟨(Cursor.Advances.token hrest).trans hadvances, htold⟩

/-- The same where it does not matter that there is one token less. -/
lemma option {kinds : List Kind} {f g : Option Token → Parser β}
    (hsome : ∀ t, t.kind ∈ kinds → Stable [t] n (f (some t)) (g (some t)))
    (hnone : Stable [] n (f none) (g none)) :
    Stable [] n (accept? kinds >>= f) (accept? kinds >>= g) := by
  cases n with
  | zero => exact zero
  | succ n => exact accept (fun t ht => (hsome t ht).mono (Nat.le_succ n)) hnone

/-- A token that has to be there. -/
lemma expect {kind : Kind} {what : Expected} {f g : Token → Parser β}
    (hf : ∀ t, Stable [] n (f t) (g t)) :
    Stable [] n (Parser.expect kind what >>= f) (Parser.expect kind what >>= g) := by
  rw [expect_bind, expect_bind]
  exact option (fun t _ => (hf t).weaken) missing

lemma token {kind : Kind} {what : Expected} :
    Stable [] n (Parser.expect kind what) (Parser.expect kind what) := by
  rw [← bind_pure (Parser.expect kind what)]
  exact expect fun _ => pure

/-- Stepping over a token that has been looked at. -/
lemma advance {t : Token} {tail : List Token} {f g : Unit → Parser β} (hrest : c.rest = t :: tail)
    (hc : tail.length < n) (hf : Stable [] n (f ()) (g ())) :
    (Parser.advance >>= f) c = (Parser.advance >>= g) c
      ∧ Stops ([] ++ c.rest) c ((Parser.advance >>= f) c) := by
  have h : Parser.advance c = .ok () { c with rest := tail } := by
    simp only [Parser.advance, hrest, List.tail_cons]
  obtain ⟨hsame, hstops⟩ := hf { c with rest := tail } hc
  have hadvances := Cursor.Advances.token hrest
  rw [bind_ok h, bind_ok h]
  exact ⟨hsame, hstops.after hadvances hadvances.rest⟩

/-! ## Lists -/

lemma commaSeparated {listing : Listing} {item item' : Parser α} (hitem : Stable [] m item item') :
    ∀ (n fuel fuel' count : Nat), n ≤ m → n ≤ fuel → n ≤ fuel' →
      Stable [] n (Parser.commaSeparated listing item fuel count)
        (Parser.commaSeparated listing item' fuel' count)
  | 0, _, _, _, _, _, _ => zero
  | n + 1, fuel + 1, fuel' + 1, count, hm, hfuel, hfuel' => by
      rw [Parser.commaSeparated, Parser.commaSeparated]
      split
      refine peek.bind fun _ => report.bind fun _ => ?_
      -- beyond the limit and below it the same items follow
      all_goals
        refine (hitem.mono hm).bind fun first => accept (fun comma _ => ?_) pure
        refine (bind ?_ fun more => pure).weaken
        exact commaSeparated hitem n fuel fuel' (count + 1) (by omega) (by omega) (by omega)

lemma listUpTo {listing : Listing} {close : Kind} {item item' : Parser α} {fuel fuel' : Nat}
    (hitem : Stable [] n item item') (hfuel : n ≤ fuel) (hfuel' : n ≤ fuel') :
    Stable [] n (Parser.listUpTo listing close fuel item) (Parser.listUpTo listing close fuel' item') := by
  rw [Parser.listUpTo, Parser.listUpTo]
  refine nextIs.bind fun closed => ?_
  split
  · exact pure
  · exact commaSeparated hitem n fuel fuel' 0 (Nat.le_refl n) hfuel hfuel'

end Stable

/-! ## Expressions -/

variable {k fuel fuel' : Nat} {inside : Bool} {enter enter' : Entry → Parser Tree}

lemma leftRest_stable {kinds : List Kind} {join : Tree → Token → Tree → Tree}
    {operand operand' : Parser Tree} (h : Stable [] m operand operand') :
    ∀ (n fuel fuel' : Nat) (left : Tree), n < m → n ≤ fuel → n ≤ fuel' →
      Stable [] (n + 1) (leftRest operand kinds join fuel left) (leftRest operand' kinds join fuel' left)
  | 0, fuel, fuel', left, _, _, _ => by
      intro c hc
      -- nothing is left to read, so the fuel does not matter
      have hnil : c.rest = [] := List.length_eq_zero_iff.mp (by omega)
      have hstop (operand : Parser Tree) (fuel : Nat) :
          leftRest operand kinds join fuel left c = .ok left c := by
        cases fuel with
        | zero => rfl
        | succ fuel =>
            rw [leftRest, bind_ok (accept?_none (by simp [Avoids, hnil]))]
            rfl
      rw [hstop, hstop]
      exact ⟨rfl, .refl c⟩
  | n + 1, fuel + 1, fuel' + 1, left, hm, hfuel, hfuel' => by
      rw [leftRest, leftRest]
      refine .accept (fun op _ => ?_) .pure
      refine ((h.mono (by omega)).bind fun right => ?_).weaken
      exact leftRest_stable h n fuel fuel' (join left op right) (by omega) (by omega) (by omega)

lemma leftLevel_stable {kinds : List Kind} {join : Tree → Token → Tree → Tree}
    {operand operand' : Parser Tree} (h : Stable [] (n + 1) operand operand') (hfuel : n ≤ fuel)
    (hfuel' : n ≤ fuel') :
    Stable [] (n + 1) (leftLevel fuel kinds join operand) (leftLevel fuel' kinds join operand') :=
  h.bind fun left => leftRest_stable h n fuel fuel' left (Nat.lt_succ_self n) hfuel hfuel'

/-- Reading on with calls and properties. -/
lemma suffixes_stable {bound bound' : Nat} (henter : ∀ entry, Stable [] n (enter entry) (enter' entry))
    (hbound : n ≤ bound) (hbound' : n ≤ bound') :
    ∀ (k fuel fuel' : Nat) (e : Tree), k ≤ n → k ≤ fuel → k ≤ fuel' →
      Stable [] (k + 1) (suffixes enter inside bound fuel e) (suffixes enter' inside bound' fuel' e)
  | 0, fuel, fuel', e, _, _, _ => by
      intro c hc
      have hnil : c.rest = [] := List.length_eq_zero_iff.mp (by omega)
      have hstop (enter : Entry → Parser Tree) (bound fuel : Nat) :
          suffixes enter inside bound fuel e c = .ok e c := by
        cases fuel with
        | zero => rfl
        | succ fuel =>
            rw [suffixes, bind_ok (accept?_none (by simp [Avoids, hnil]))]
            rfl
      rw [hstop, hstop]
      exact ⟨rfl, .refl c⟩
  | k + 1, fuel + 1, fuel' + 1, e, hk, hf, hf' => by
      rw [suffixes, suffixes]
      refine .accept (fun opener _ => ?_) .pure
      have hnext (e' : Tree) := suffixes_stable henter hbound hbound' k fuel fuel' e' (by omega) (by omega)
        (by omega)
      have hargs : Stable [] (k + 1) (Parser.listUpTo .arguments .rightParen bound (enter .expression))
          (Parser.listUpTo .arguments .rightParen bound' (enter' .expression)) :=
        ((henter .expression).mono hk).listUpTo (by omega) (by omega)
      dsimp only
      split
      · exact (hargs.bind fun args => .expect fun paren => hnext _).weaken
      · exact (Stable.expect fun name => hnext _).weaken

section

variable (henter : ∀ entry, Stable [] n (enter entry) (enter' entry)) (hfuel : n ≤ fuel)
  (hfuel' : n ≤ fuel')

include henter hfuel hfuel'

lemma primary_stable : Stable [] (n + 1) (primary enter fuel) (primary enter' fuel') := by
  intro c hc
  rw [primary, primary]
  match hrest : c.rest with
  | [] =>
      have hpeek : peek? c = .ok none c := by simp [peek?, hrest]
      rw [bind_ok hpeek, bind_ok hpeek, ← hrest]
      exact Stable.missing c hc
  | t :: tail =>
      have hpeek : peek? c = .ok (some t) c := by simp [peek?, hrest]
      have hlen : tail.length < n := by
        rw [hrest, List.length_cons] at hc
        omega
      rw [bind_ok hpeek, bind_ok hpeek, ← hrest]
      dsimp only
      generalize t.kind = kind
      cases kind
      case falseWord | trueWord | zilchWord | infWord | number | string | thisWord | identifier =>
        exact Stable.advance hrest hlen .pure
      case leftSquare =>
        exact Stable.advance hrest hlen (((henter .disjunction).listUpTo hfuel hfuel').bind fun items =>
          .expect fun close => .pure)
      case superWord =>
        exact Stable.advance hrest hlen (.expect fun dot => .expect fun method => .pure)
      case leftParen =>
        exact Stable.advance hrest hlen ((henter .expression).bind fun inner =>
          .expect fun close => .pure)
      all_goals exact Stable.missing c hc

lemma stepped_stable : Stable [] (n + 1) (stepped enter fuel) (stepped enter' fuel') := by
  rw [stepped, stepped]
  have hprimary := primary_stable henter hfuel hfuel'
  refine .accept (fun word _ => ((hprimary.mono (Nat.le_succ n)).bind fun r => ?_).weaken)
    (hprimary.bind fun r => .pure)
  split
  · exact .pure
  · exact Stable.report.bind fun _ => .pure

lemma unaryLevel_stable :
    Stable [] (n + 1) (unaryLevel enter inside fuel) (unaryLevel enter' inside fuel') := by
  rw [unaryLevel, unaryLevel]
  refine .accept (fun op _ => ((henter .unary).bind fun operand => .pure).weaken) ?_
  exact (stepped_stable henter hfuel hfuel').bind fun e =>
    suffixes_stable henter hfuel hfuel' n fuel fuel' e (Nat.le_refl n) hfuel hfuel'

lemma equalityLevel_stable :
    Stable [] (n + 1) (equalityLevel enter inside fuel) (equalityLevel enter' inside fuel') :=
  leftLevel_stable (leftLevel_stable (leftLevel_stable (leftLevel_stable (leftLevel_stable
    (unaryLevel_stable henter hfuel hfuel') hfuel hfuel') hfuel hfuel') hfuel hfuel') hfuel hfuel') hfuel
    hfuel'

lemma conditionalLevel_stable :
    Stable [] (n + 1) (conditionalLevel enter inside fuel) (conditionalLevel enter' inside fuel') := by
  rw [conditionalLevel, conditionalLevel]
  refine (equalityLevel_stable henter hfuel hfuel').bind fun condition => .accept (fun question _ => ?_)
    .pure
  exact ((henter .expression).bind fun yes => .expect fun colon => (henter .expression).bind fun no =>
    .pure).weaken

lemma disjunctionLevel_stable :
    Stable [] (n + 1) (disjunctionLevel enter inside fuel) (disjunctionLevel enter' inside fuel') :=
  leftLevel_stable (leftLevel_stable (conditionalLevel_stable henter hfuel hfuel') hfuel hfuel') hfuel
    hfuel'

lemma assignmentLevel_stable :
    Stable [] (n + 1) (assignmentLevel enter inside fuel) (assignmentLevel enter' inside fuel') := by
  rw [assignmentLevel, assignmentLevel]
  refine (disjunctionLevel_stable henter hfuel hfuel').bind fun target => .accept (fun equals _ => ?_)
    .pure
  refine ((henter .expression).bind fun value => ?_).weaken
  split
  · exact .pure
  · exact Stable.report.bind fun _ => .pure

end

/-- **More fuel than tokens is enough for an expression**, at each of the levels at which the grammar enters
itself again. -/
theorem expressionAt_stable (inside : Bool) : ∀ (n fuel : Nat) (entry : Entry), n ≤ fuel →
    Stable [] n (expressionAt inside n entry) (expressionAt inside fuel entry)
  | 0, _, _, _ => .zero
  | n + 1, fuel + 1, entry, h => by
      have henter (entry : Entry) := expressionAt_stable inside n fuel entry (Nat.le_of_succ_le_succ h)
      have hfuel : n ≤ fuel := Nat.le_of_succ_le_succ h
      cases entry with
      | expression => exact assignmentLevel_stable henter (Nat.le_refl n) hfuel
      | disjunction => exact disjunctionLevel_stable henter (Nat.le_refl n) hfuel
      | unary => exact unaryLevel_stable henter (Nat.le_refl n) hfuel

lemma expression_stable : Stable [] n (expression inside) (expression inside) :=
  fun c _ => ⟨rfl, (expressionAt_stable inside _ _ .expression (Nat.le_refl _) c (Nat.lt_succ_self _)).2⟩

end Parser

end KScript

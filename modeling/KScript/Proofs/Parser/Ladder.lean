import KScript.Proofs.Parser.Reading

/-!
# Climbing the ladder

What it takes for tokens to be read as an expression at a rung of the ladder, in both directions: that
a parser which reads so has read a spelling (`Reading` holds of what it read), and that it reads every
spelling (`Reads`).

An expression is read as far as it goes.  So besides being spelled and standing high enough on the
ladder, it must end where the reading stops: nothing that follows may go on at that rung, and if the
expression ends with the last branch of a conditional, nothing that follows may go on with any
expression at all.
-/

namespace KScript.Parser

variable {k : Nat} {inside : Bool} {e : Tree} {ts rest : List Token}

/-- The expression is read off the tokens at that rung when `rest` follows. -/
structure Reading (inside : Bool) (k : Nat) (e : Tree) (ts rest : List Token) : Prop where
  spells : e.Spells inside ts
  rank : k ≤ e.rank
  ends : Ends k rest
  closes : e.endsOpen = true → Ends 0 rest

/-! ## Where an expression ends -/

lemma ends_nil : Ends k [] := by
  intro t ht
  simp at ht

lemma ends_cons {t : Token} : Ends k (t :: rest) ↔ ∀ r, t.kind.rung = some r → r < k := by
  simp [Ends]

/-- A token that is on no rung ends every expression. -/
lemma ends_of_rung_none {t : Token} (h : t.kind.rung = none) : Ends k (t :: rest) := by
  rw [ends_cons, h]
  intro r hr
  exact absurd hr (by simp)

lemma ends_of_le {j : Nat} (h : Ends j rest) (hjk : j ≤ k) : Ends k rest :=
  fun t ht r hr => Nat.lt_of_lt_of_le (h t ht r hr) hjk

/-- One rung down, once nothing of that rung follows. -/
lemma ends_of_avoids {kinds : List Kind} (hkinds : ∀ kind : Kind, kind.rung = some k → kind ∈ kinds)
    (h : Ends (k + 1) rest) (ha : Avoids kinds rest) : Ends k rest := by
  intro t ht r hr
  have hlt := h t ht r hr
  have hne : r ≠ k := fun hrk => ha t ht (hkinds _ (hrk ▸ hr))
  omega

/-- Where an expression ends, nothing of its rung or a tighter one follows. -/
lemma avoids_of_ends {kinds : List Kind} (h : Ends k rest)
    (hkinds : ∀ kind ∈ kinds, ∃ r, kind.rung = some r ∧ k ≤ r) : Avoids kinds rest := by
  intro t ht hmem
  obtain ⟨r, hr, hkr⟩ := hkinds _ hmem
  have := h t ht r hr
  omega

/-- The kinds of token on a rung, as the parser lists them. -/
def rungKinds : Nat → List Kind
  | 0 => assignmentKinds
  | 1 => [.orWord]
  | 2 => [.andWord]
  | 3 => [.question]
  | 4 => [.bangEqual, .equalEqual]
  | 5 => [.greater, .greaterEqual, .lesser, .lesserEqual]
  | 6 => [.plus, .minus]
  | 7 => [.slash, .star, .modWord, .divWord]
  | 8 => [.caret]
  | 10 => [.leftParen, .dot]
  | _ => []

lemma rung_of_mem_rungKinds : ∀ {k : Nat}, ∀ kind ∈ rungKinds k, kind.rung = some k
  | 0 | 1 | 2 | 3 | 4 | 5 | 6 | 7 | 8 | 10 => by decide
  | 9 | _ + 11 => fun _ h => absurd h List.not_mem_nil

lemma rung_eq_some {kind : Kind} : kind.rung = some k ↔ kind ∈ rungKinds k := by
  refine ⟨fun h => ?_, rung_of_mem_rungKinds kind⟩
  cases kind <;> cases h <;> decide

lemma ends_of_avoids_rung (h : Ends (k + 1) rest) (ha : Avoids (rungKinds k) rest) : Ends k rest :=
  ends_of_avoids (fun _ => rung_eq_some.mp) h ha

lemma avoids_rung_of_ends (h : Ends k rest) : Avoids (rungKinds k) rest :=
  avoids_of_ends h fun _ hk => ⟨k, rung_eq_some.mpr hk, Nat.le_refl k⟩

lemma rung_le_ten {kind : Kind} {r : Nat} (h : kind.rung = some r) : r ≤ 10 := by
  cases kind <;> cases h <;> decide

/-! ## Ranks -/

lemma binary_rank {left right : Tree} {op : Token} (h : (Expr.binary left op right).Spells inside ts) :
    4 ≤ (Expr.binary left op right).rank ∧ (Expr.binary left op right).rank ≤ 8 := by
  obtain ⟨a, b, -, -, -, r, hr, hr4, hr8, -⟩ := h
  simp only [Expr.rank, hr, Option.getD_some]
  exact ⟨hr4, hr8⟩

lemma logical_rank {left right : Tree} {op : Token}
    (h : (Expr.logical left op right).Spells inside ts) :
    1 ≤ (Expr.logical left op right).rank ∧ (Expr.logical left op right).rank ≤ 2 := by
  obtain ⟨a, b, -, -, -, r, hr, hr1, hr2, -⟩ := h
  simp only [Expr.rank, hr, Option.getD_some]
  exact ⟨hr1, hr2⟩

/-- Only a conditional, or what ends with one, is open. -/
lemma rank_le_of_endsOpen (hw : e.Spells inside ts) (h : e.endsOpen = true) : e.rank ≤ 3 := by
  cases e with
  | logical left op right => exact Nat.le_succ_of_le (logical_rank hw).2
  | conditional condition yes no => simp [Expr.rank]
  | _ => simp [Expr.endsOpen] at h

/-! ## How an expression begins -/

/-- The kinds of token that a primary begins with. -/
def primaryKinds : List Kind :=
  [.falseWord, .trueWord, .zilchWord, .infWord, .number, .string, .leftSquare, .superWord, .thisWord,
   .identifier, .leftParen]

/-- The kinds of token that an expression can begin with. -/
def firstKinds : List Kind := [.incWord, .decWord, .bang, .minus] ++ primaryKinds

/-- How the spelling of an expression begins: with one token or more, with a counting word exactly if
the tree says so, and with a unary operator only if it is loose enough. -/
structure Begins (e : Tree) (t : Token) : Prop where
  mem : t.kind ∈ firstKinds
  step : e.beginsWithStep = true ↔ t.kind ∈ [Kind.incWord, .decWord]
  tight : e.rank = 10 → t.kind ∉ [Kind.bang, .minus]

lemma primaryKinds_spec : ∀ kind ∈ primaryKinds,
    kind ∈ firstKinds ∧ kind ∉ [Kind.incWord, .decWord] ∧ kind ∉ [Kind.bang, .minus] := by
  decide

lemma Begins.of_primary {t : Token} (h : t.kind ∈ primaryKinds) (hstep : e.beginsWithStep = false) :
    Begins e t := by
  obtain ⟨hmem, hnot, htight⟩ := primaryKinds_spec t.kind h
  exact ⟨hmem, by simpa [hstep] using hnot, fun _ => htight⟩

/-- What begins with one of its operands. -/
lemma Begins.of_left {left : Tree} {t : Token} (h : Begins left t)
    (hstep : e.beginsWithStep = left.beginsWithStep) (htight : e.rank = 10 → left.rank = 10) :
    Begins e t :=
  ⟨h.mem, hstep ▸ h.step, fun he => h.tight (htight he)⟩

lemma denotes?_mem {t : Token} {value : Literal} (h : t.denotes? = some value) :
    t.kind ∈ primaryKinds := by
  unfold Token.denotes? at h
  split at h <;> simp_all [primaryKinds]

/-- **A spelling is never empty**, and its first token shows what kind of expression begins. -/
theorem begins_of_spells {e : Tree} {ts : List Token} (h : e.Spells inside ts) :
    ∃ t tail, ts = t :: tail ∧ Begins e t := by
  cases e with
  | literal value =>
      obtain ⟨t, rfl, ht⟩ := h
      exact ⟨t, [], rfl, .of_primary (denotes?_mem ht) rfl⟩
  | array items =>
      obtain ⟨t, mid, right, texts, rfl, ht, -⟩ := h
      exact ⟨t, _, rfl, .of_primary (by simp [ht, primaryKinds]) rfl⟩
  | grouping inner =>
      obtain ⟨t, mid, right, rfl, ht, -⟩ := h
      exact ⟨t, _, rfl, .of_primary (by simp [ht, primaryKinds]) rfl⟩
  | unary op operand =>
      obtain ⟨b, rfl, -, hop, -⟩ := h
      refine ⟨op, b, rfl, ?_⟩
      rcases List.mem_pair.mp hop with hk | hk <;>
        exact ⟨by simp [hk, firstKinds], by simp [Expr.beginsWithStep, hk], by simp [Expr.rank]⟩
  | binary left op right =>
      have hrank := binary_rank h
      obtain ⟨a, b, rfl, hleft, -⟩ := h
      obtain ⟨t, tail, rfl, ht⟩ := begins_of_spells hleft
      exact ⟨t, _, rfl, ht.of_left rfl fun h10 => by omega⟩
  | logical left op right =>
      have hrank := logical_rank h
      obtain ⟨a, b, rfl, hleft, -⟩ := h
      obtain ⟨t, tail, rfl, ht⟩ := begins_of_spells hleft
      exact ⟨t, _, rfl, ht.of_left rfl fun h10 => by omega⟩
  | conditional condition yes no =>
      obtain ⟨a, question, b, colon, c, rfl, -, -, hcond, -⟩ := h
      obtain ⟨t, tail, rfl, ht⟩ := begins_of_spells hcond
      exact ⟨t, _, rfl, ht.of_left rfl fun h10 => by simp [Expr.rank] at h10⟩
  | «variable» ref =>
      obtain ⟨rfl, ht⟩ := h
      rw [Expr.Fits] at ht
      exact ⟨_, [], rfl, .of_primary (by simp [ht, primaryKinds]) rfl⟩
  | assign ref value =>
      obtain ⟨equals, b, rfl, ht, -⟩ := h
      rw [Expr.Fits] at ht
      exact ⟨_, _, rfl, .of_primary (by simp [ht, primaryKinds]) rfl⟩
  | step direction ref =>
      obtain ⟨word, rfl, ht, -⟩ := h
      refine ⟨word, _, rfl, ?_⟩
      cases direction <;>
        exact ⟨by simp [ht, Direction.kind, firstKinds],
          by simp [Expr.beginsWithStep, ht, Direction.kind], by simp [ht, Direction.kind]⟩
  | call callee paren args =>
      obtain ⟨a, left, mid, texts, rfl, -, hcallee, -, -, hrank, -⟩ := h
      obtain ⟨t, tail, rfl, ht⟩ := begins_of_spells hcallee
      exact ⟨t, _, rfl, ht.of_left rfl fun _ => hrank⟩
  | get object name flag =>
      obtain ⟨a, dot, rfl, -, hobject, hrank, -⟩ := h
      obtain ⟨t, tail, rfl, ht⟩ := begins_of_spells hobject
      exact ⟨t, _, rfl, ht.of_left rfl fun _ => hrank⟩
  | set object name value flag =>
      obtain ⟨a, dot, equals, b, rfl, -, -, hobject, -, hrank, -⟩ := h
      obtain ⟨t, tail, rfl, ht⟩ := begins_of_spells hobject
      exact ⟨t, _, rfl, ht.of_left rfl fun _ => hrank⟩
  | receiver ref =>
      obtain ⟨rfl, ht⟩ := h
      rw [Expr.Fits] at ht
      exact ⟨_, [], rfl, .of_primary (by simp [ht, primaryKinds]) rfl⟩
  | inherited ref method =>
      obtain ⟨dot, rfl, -, ht, -⟩ := h
      exact ⟨_, _, rfl, .of_primary (by simp [ht, primaryKinds]) rfl⟩

/-! ## Operators with two operands -/

/-- An operator of a rung joins two operands that are tight enough for it, and every expression of that
rung is joined so. -/
structure Joins (inside : Bool) (k : Nat) (join : Tree → Token → Tree → Tree) : Prop where
  spells : ∀ {left right : Tree} {op : Token} {a b : List Token}, op.kind ∈ rungKinds k →
    left.Spells inside a → right.Spells inside b → k ≤ left.rank → k < right.rank →
    left.endsOpen = false → (join left op right).Spells inside (a ++ op :: b)
  rank : ∀ {left right : Tree} {op : Token}, op.kind ∈ rungKinds k →
    (join left op right).rank = k
  endsOpen : ∀ {left right : Tree} {op : Token} {b : List Token}, k < right.rank →
    right.Spells inside b →
    ((join left op right).endsOpen = true ↔ right.endsOpen = true)
  splits : ∀ {e : Tree} {ts : List Token}, e.Spells inside ts → e.rank = k →
    ∃ left op right a b, e = join left op right ∧ ts = a ++ op :: b ∧ op.kind ∈ rungKinds k
      ∧ left.Spells inside a ∧ right.Spells inside b ∧ k ≤ left.rank ∧ k < right.rank
      ∧ left.endsOpen = false

lemma binary_joins (h4 : 4 ≤ k) (h8 : k ≤ 8) : Joins inside k .binary where
  spells hop hl hr hkl hkr _ := by
    exact ⟨_, _, rfl, hl, hr, k, rung_eq_some.mpr hop, h4, h8, hkl, hkr⟩
  rank hop := by simp only [Expr.rank, rung_eq_some.mpr hop, Option.getD_some]
  endsOpen {left right op b} hkr hr := by
    constructor
    · intro h
      simp [Expr.endsOpen] at h
    · intro h
      have := rank_le_of_endsOpen hr h
      omega
  splits {e ts} h hrank := by
    cases e with
    | binary left op right =>
        obtain ⟨a, b, rfl, hl, hr, r, hop, -, -, hrl, hrr⟩ := h
        obtain rfl : r = k := by simpa only [Expr.rank, hop, Option.getD_some] using hrank
        refine ⟨left, op, right, a, b, rfl, rfl, rung_eq_some.mp hop, hl, hr, hrl, hrr, ?_⟩
        by_contra hopen
        have := rank_le_of_endsOpen hl (by simpa using hopen)
        omega
    | logical left op right =>
        have := logical_rank h
        omega
    | _ =>
        simp only [Expr.rank] at hrank
        omega

lemma logical_joins (h1 : 1 ≤ k) (h2 : k ≤ 2) : Joins inside k .logical where
  spells hop hl hr hkl hkr hopen := by
    exact ⟨_, _, rfl, hl, hr, k, rung_eq_some.mpr hop, h1, h2, hkl, hkr, hopen⟩
  rank hop := by simp only [Expr.rank, rung_eq_some.mpr hop, Option.getD_some]
  endsOpen _ _ := Iff.rfl
  splits {e ts} h hrank := by
    cases e with
    | binary left op right =>
        have := binary_rank h
        omega
    | logical left op right =>
        obtain ⟨a, b, rfl, hl, hr, r, hop, -, -, hrl, hrr, hopen⟩ := h
        obtain rfl : r = k := by simpa only [Expr.rank, hop, Option.getD_some] using hrank
        exact ⟨left, op, right, a, b, rfl, rfl, rung_eq_some.mp hop, hl, hr, hrl, hrr, hopen⟩
    | _ =>
        simp only [Expr.rank] at hrank
        omega

/-! ## Assignments -/

/-- Every token that assigns can assign to a variable. -/
lemma assignment?_variable (inside : Bool) (ref : Reference Unit) (value : Tree) {equals : Token}
    (hequals : equals.kind ∈ assignmentKinds) :
    equals.kind = .equal ∧ assignment? inside (.variable ref) equals value = some (.assign ref value)
      ∨ equals.kind.isCompound ∧ assignment? inside (.variable ref) equals value
          = some (.assign ref (.binary (.variable ref) equals.operatorOf value)) := by
  obtain ⟨kind, lexeme, literal, line⟩ := equals
  simp only [assignmentKinds, List.mem_cons, List.not_mem_nil, or_false] at hequals
  rcases hequals with rfl | rfl | rfl | rfl | rfl | rfl
  · exact Or.inl ⟨rfl, rfl⟩
  all_goals exact Or.inr ⟨rfl, rfl⟩

/-! ## Where the grammar is entered again -/

/-- The rung at which the grammar is entered again. -/
def Entry.rung : Entry → Nat
  | .expression => 0
  | .disjunction => 1
  | .unary => 9

lemma spellsEach_of_forall {P : Tree → List Token → Prop}
    (hP : ∀ e ts, P e ts → e.Spells inside ts) {items : List Tree} {texts : List (List Token)}
    (h : List.Forall₂ P items texts) : Expr.SpellsEach inside items texts := by
  induction h with
  | nil => rfl
  | cons he _ ih => exact ⟨_, _, rfl, hP _ _ he, ih⟩

lemma forall_of_spellsEach {items : List Tree} {texts : List (List Token)}
    (h : Expr.SpellsEach inside items texts) :
    List.Forall₂ (fun e text => e.Spells inside text) items texts := by
  induction items generalizing texts with
  | nil =>
      rw [Expr.SpellsEach] at h
      exact h ▸ .nil
  | cons e items ih =>
      obtain ⟨_, _, rfl, he, hrest⟩ := h
      exact .cons he (ih hrest)

end KScript.Parser

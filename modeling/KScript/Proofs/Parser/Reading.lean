import KScript.Proofs.Grammar.Expression
import Mathlib.Data.List.Forall2
import Mathlib.Tactic.Common

/-!
# What a parser reads

A way to say what a parser does with its cursor, and the rules to put such statements together.

`Meets n p Q` is about a parser `p` that has fewer than `n` tokens in front of it: it only ever steps
forward and only ever adds complaints.  If it answers without a complaint, the answer, the tokens it
has read and those it has left satisfy `Q`; if it gives up, it has complained.  The bound on the
tokens takes the place of fuel: a parser with more fuel than tokens cannot run out of it.
-/

namespace KScript.Parser

variable {α β : Type} {n m : Nat} {c d : Cursor}

/-- What an outcome says about the cursor before it. -/
def Result (c : Cursor) (Q : α → List Token → List Token → Prop) :
    EStateM.Result Abort Cursor α → Prop
  | .ok a d =>
    ∃ used new, c.rest = used ++ d.rest ∧ d.reports = c.reports ++ new
      ∧ (new = [] → Q a used d.rest)
  | .error _ d =>
    ∃ used new, c.rest = used ++ d.rest ∧ d.reports = c.reports ++ new ∧ new ≠ []

/-- What the parser does with fewer than `n` tokens in front of it. -/
def Meets (n : Nat) (p : Parser α) (Q : α → List Token → List Token → Prop) : Prop :=
  ∀ c : Cursor, c.rest.length < n → Result c Q (p c)

/-! ## Changing the bound and the statement -/

lemma Result.imp {P Q : α → List Token → List Token → Prop}
    (himp : ∀ a used rest, c.rest = used ++ rest → P a used rest → Q a used rest) :
    ∀ {r : EStateM.Result Abort Cursor α}, Result c P r → Result c Q r
  | .ok _ _, ⟨used, new, hrest, hnew, h⟩ =>
      ⟨used, new, hrest, hnew, fun h0 => himp _ _ _ hrest (h h0)⟩
  | .error _ _, h => h

/-- With more tokens in front of it than the parser can have, nothing is left to show. -/
lemma Meets.zero {p : Parser α} {Q : α → List Token → List Token → Prop} : Meets 0 p Q :=
  fun _ h => absurd h (Nat.not_lt_zero _)

lemma Meets.mono {p : Parser α} {Q : α → List Token → List Token → Prop} (h : Meets n p Q)
    (hm : m ≤ n) : Meets m p Q :=
  fun c hc => h c (Nat.lt_of_lt_of_le hc hm)

/-- A parser meets every weaker statement. -/
lemma Meets.imp {p : Parser α} {P Q : α → List Token → List Token → Prop} (h : Meets n p P)
    (himp : ∀ a used rest, P a used rest → Q a used rest) : Meets n p Q :=
  fun c hc => (h c hc).imp fun a used rest _ => himp a used rest

/-! ## One parser after the other -/

lemma bind_ok {p : Parser α} {f : α → Parser β} {a : α} (h : p c = .ok a d) :
    (p >>= f) c = f a d := by
  simp only [bind, EStateM.bind, h]

lemma bind_error {p : Parser α} {f : α → Parser β} {e : Abort} (h : p c = .error e d) :
    (p >>= f) c = .error e d := by
  simp only [bind, EStateM.bind, h]

/-- What is said of a later outcome, seen from an earlier cursor.  Once there has been a complaint,
only the shape of the outcome matters. -/
lemma Result.after {Q : β → List Token → List Token → Prop} {used : List Token}
    {new : List Diagnostic} (hrest : c.rest = used ++ d.rest) (hnew : d.reports = c.reports ++ new)
    {r : EStateM.Result Abort Cursor β}
    (hr : Result d (fun b v rest => new = [] → Q b (used ++ v) rest) r) : Result c Q r := by
  cases r with
  | ok b e =>
      obtain ⟨v, more, h1, h2, h3⟩ := hr
      refine ⟨used ++ v, new ++ more, ?_, ?_, fun h0 => ?_⟩
      · rw [hrest, h1, List.append_assoc]
      · rw [h2, hnew, List.append_assoc]
      · obtain ⟨h4, h5⟩ := List.append_eq_nil_iff.mp h0
        exact h3 h5 h4
  | error _ e =>
      obtain ⟨v, more, h1, h2, h3⟩ := hr
      refine ⟨used ++ v, new ++ more, ?_, ?_, fun h0 => h3 (List.append_eq_nil_iff.mp h0).2⟩
      · rw [hrest, h1, List.append_assoc]
      · rw [h2, hnew, List.append_assoc]

lemma Meets.pure {a : α} : Meets n (Pure.pure a) fun b used _ => b = a ∧ used = [] :=
  fun _ _ => ⟨[], [], rfl, (List.append_nil _).symm, fun _ => ⟨rfl, rfl⟩⟩

/-- **One parser after the other.**  The second has the tokens that the first has left. -/
lemma Meets.bind {p : Parser α} {f : α → Parser β} {P : α → List Token → List Token → Prop}
    {Q : α → β → List Token → List Token → Prop} (hp : Meets n p P)
    (hf : ∀ a, Meets n (f a) (Q a)) :
    Meets n (p >>= f) fun b used rest =>
      ∃ a u v, used = u ++ v ∧ P a u (v ++ rest) ∧ Q a b v rest := by
  intro c hc
  have h := hp c hc
  match hr : p c with
  | .error e d => rw [bind_error hr]; rw [hr] at h; exact h
  | .ok a d =>
      rw [hr] at h
      obtain ⟨used, new, hrest, hnew, hP⟩ := h
      have hd : d.rest.length < n := by
        have := congrArg List.length hrest
        rw [List.length_append] at this
        omega
      rw [bind_ok hr]
      refine Result.after hrest hnew ((hf a d hd).imp fun b v rest hv hQ h0 => ?_)
      exact ⟨a, used, v, rfl, hv ▸ hP h0, hQ⟩

lemma Meets.map {p : Parser α} {g : α → β} {P : α → List Token → List Token → Prop}
    (hp : Meets n p P) : Meets n (g <$> p) fun b used rest => ∃ a, b = g a ∧ P a used rest := by
  rw [← bind_pure_comp]
  refine Meets.imp (Meets.bind hp fun a => Meets.pure) ?_
  rintro b used rest ⟨a, u, v, rfl, h, rfl, rfl⟩
  rw [List.append_nil]
  exact ⟨a, rfl, h⟩

/-! ## Single tokens -/

/-- The next token is of none of these kinds. -/
def Avoids (kinds : List Kind) (rest : List Token) : Prop := ∀ t ∈ rest.head?, t.kind ∉ kinds

lemma accept?_none {kinds : List Kind} (h : Avoids kinds c.rest) : accept? kinds c = .ok none c := by
  unfold accept?
  match hrest : c.rest with
  | [] => rfl
  | t :: rest => exact if_neg (h t (by rw [hrest]; rfl))

lemma accept?_some {kinds : List Kind} {t : Token} {rest : List Token} (hrest : c.rest = t :: rest)
    (h : t.kind ∈ kinds) : accept? kinds c = .ok (some t) { c with rest } := by
  unfold accept?
  rw [hrest]
  exact if_pos h

lemma avoids_or (kinds : List Kind) (rest : List Token) :
    Avoids kinds rest ∨ ∃ t tail, rest = t :: tail ∧ t.kind ∈ kinds := by
  match rest with
  | [] => exact Or.inl (by intro t ht; simp at ht)
  | t :: tail =>
      by_cases h : t.kind ∈ kinds
      · exact Or.inr ⟨t, tail, rfl, h⟩
      · refine Or.inl fun t' ht' => ?_
        rw [List.head?_cons, Option.mem_some_iff] at ht'
        exact ht' ▸ h

/-- **Looking for a token.**  If it is there it is read, and one token less is left. -/
lemma Meets.accept {kinds : List Kind} {f : Option Token → Parser β}
    {P : Token → β → List Token → List Token → Prop} {Q : β → List Token → List Token → Prop}
    (hsome : ∀ t, t.kind ∈ kinds → Meets n (f (some t)) (P t)) (hnone : Meets (n + 1) (f none) Q) :
    Meets (n + 1) (accept? kinds >>= f) fun b used rest =>
      (∃ t v, used = t :: v ∧ t.kind ∈ kinds ∧ P t b v rest)
        ∨ Avoids kinds (used ++ rest) ∧ Q b used rest := by
  intro c hc
  rcases avoids_or kinds c.rest with h | ⟨t, tail, hrest, h⟩
  · rw [bind_ok (accept?_none h)]
    exact (hnone c hc).imp fun b used rest hrest hQ => Or.inr ⟨hrest ▸ h, hQ⟩
  · rw [bind_ok (accept?_some hrest h)]
    have hlen : tail.length < n := by
      rw [hrest, List.length_cons] at hc
      omega
    have hused : c.rest = [t] ++ tail := hrest
    refine Result.after (d := { c with rest := tail }) hused (List.append_nil _).symm ?_
    exact (hsome t h _ hlen).imp fun b v rest _ hP _ => Or.inl ⟨t, v, rfl, h, hP⟩

/-- The same where it does not matter that there is one token less. -/
lemma Meets.option {kinds : List Kind} {f : Option Token → Parser β}
    {P : Token → β → List Token → List Token → Prop} {Q : β → List Token → List Token → Prop}
    (hsome : ∀ t, t.kind ∈ kinds → Meets n (f (some t)) (P t)) (hnone : Meets n (f none) Q) :
    Meets n (accept? kinds >>= f) fun b used rest =>
      (∃ t v, used = t :: v ∧ t.kind ∈ kinds ∧ P t b v rest)
        ∨ Avoids kinds (used ++ rest) ∧ Q b used rest := by
  cases n with
  | zero => exact Meets.zero
  | succ n => exact Meets.accept (fun t ht => (hsome t ht).mono (Nat.le_succ n)) hnone

/-- Giving up comes with a complaint. -/
lemma Meets.fail {token : Option Token} {complaint : Complaint}
    {Q : α → List Token → List Token → Prop} : Meets n (Parser.fail token complaint) Q :=
  fun _ _ => ⟨[], _, rfl, rfl, List.cons_ne_nil _ _⟩

lemma Meets.missing {what : Expected} {Q : α → List Token → List Token → Prop} :
    Meets n (Parser.missing what) Q :=
  fun _ _ => ⟨[], _, rfl, rfl, List.cons_ne_nil _ _⟩

/-- After a complaint anything may be answered. -/
lemma Meets.report {token : Option Token} {complaint : Complaint} {f : Unit → Parser β}
    {P Q : β → List Token → List Token → Prop} (hf : Meets n (f ()) P) :
    Meets n (Parser.report token complaint >>= f) Q := by
  intro c hc
  obtain ⟨told, h⟩ : ∃ told, Parser.report token complaint c
      = .ok () { c with reports := c.reports ++ [told] } := ⟨_, rfl⟩
  rw [bind_ok h]
  have hused : c.rest = [] ++ c.rest := rfl
  refine Result.after (d := { c with reports := c.reports ++ [told] }) hused rfl ?_
  refine (hf { c with reports := c.reports ++ [told] } hc).imp ?_
  exact fun b v rest _ _ h0 => absurd h0 (List.cons_ne_nil _ _)

lemma expect_bind {kind : Kind} {what : Expected} {f : Token → Parser β} :
    (Parser.expect kind what >>= f)
      = accept? [kind] >>= fun o => match o with
        | some t => f t
        | none => Parser.missing what := by
  funext c
  rcases avoids_or [kind] c.rest with h | ⟨t, tail, hrest, h⟩
  · have h' : Parser.expect kind what c = Parser.missing what c := bind_ok (accept?_none h)
    rw [bind_ok (accept?_none h)]
    exact bind_error h'
  · have h' : Parser.expect kind what c = .ok t { c with rest := tail } :=
      bind_ok (accept?_some hrest h)
    rw [bind_ok (accept?_some hrest h)]
    exact bind_ok h'

/-- A token that has to be there. -/
lemma Meets.expect {kind : Kind} {what : Expected} {f : Token → Parser β}
    {Q : Token → β → List Token → List Token → Prop}
    (hf : ∀ t, t.kind = kind → Meets n (f t) (Q t)) :
    Meets n (Parser.expect kind what >>= f) fun b used rest =>
      ∃ t v, used = t :: v ∧ t.kind = kind ∧ Q t b v rest := by
  rw [expect_bind]
  refine Meets.imp (Meets.mono (Meets.accept (P := Q) (Q := fun _ _ _ => False)
    (fun t ht => hf t (List.mem_singleton.mp ht)) Meets.missing) (Nat.le_succ n)) ?_
  rintro b used rest (⟨t, v, rfl, ht, h⟩ | ⟨-, h⟩)
  · exact ⟨t, v, rfl, List.mem_singleton.mp ht, h⟩
  · exact h.elim

lemma Meets.token {kind : Kind} {what : Expected} :
    Meets n (Parser.expect kind what) fun t used _ => used = [t] ∧ t.kind = kind := by
  rw [← bind_pure (Parser.expect kind what)]
  refine Meets.imp (Meets.expect fun t _ => Meets.pure) ?_
  rintro _ _ rest ⟨t, _, rfl, ht, rfl, rfl⟩
  exact ⟨rfl, ht⟩

/-- Stepping over a token that has been looked at. -/
lemma Result.advance {t : Token} {tail : List Token} {f : Unit → Parser β}
    {Q : β → List Token → List Token → Prop} (hrest : c.rest = t :: tail) (hc : tail.length < n)
    (hf : Meets n (f ()) Q) :
    Result c (fun b used rest => ∃ v, used = t :: v ∧ Q b v rest) ((Parser.advance >>= f) c) := by
  have h : Parser.advance c = .ok () { c with rest := tail } := by
    simp only [Parser.advance, hrest, List.tail_cons]
  have hused : c.rest = [t] ++ tail := hrest
  rw [bind_ok h]
  refine Result.after (d := { c with rest := tail }) hused (List.append_nil _).symm ?_
  exact (hf _ hc).imp fun b v rest _ hQ _ => ⟨v, rfl, hQ⟩

lemma nextIs_false {kind : Kind} (h : Avoids [kind] c.rest) : nextIs kind c = .ok false c := by
  unfold nextIs
  match hrest : c.rest with
  | [] => rfl
  | t :: rest =>
      have hk : t.kind ≠ kind := fun hk => h t (by rw [hrest]; rfl) (by simp [hk])
      simp [hk]

lemma nextIs_true {kind : Kind} {t : Token} {rest : List Token} (hrest : c.rest = t :: rest)
    (h : t.kind = kind) : nextIs kind c = .ok true c := by
  simp [nextIs, hrest, h]

/-- Looking at a token that stays. -/
lemma Meets.nextIs {kind : Kind} {f : Bool → Parser β} {P Q : β → List Token → List Token → Prop}
    (hyes : Meets n (f true) P) (hno : Meets n (f false) Q) :
    Meets n (Parser.nextIs kind >>= f) fun b used rest =>
      P b used rest ∨ Avoids [kind] (used ++ rest) ∧ Q b used rest := by
  intro c hc
  rcases avoids_or [kind] c.rest with h | ⟨t, tail, hrest, h⟩
  · rw [bind_ok (nextIs_false h)]
    exact (hno c hc).imp fun b used rest hrest hQ => Or.inr ⟨hrest ▸ h, hQ⟩
  · rw [bind_ok (nextIs_true hrest (List.mem_singleton.mp h))]
    exact (hyes c hc).imp fun b used rest _ hP => Or.inl hP

/-! ## Lists -/

/-- Items with commas between them, each read by the same parser. -/
lemma Meets.commaSeparated {listing : Listing} {item : Parser α}
    {P : α → List Token → List Token → Prop} (hitem : Meets n item P) :
    ∀ (fuel count : Nat), fuel ≤ n →
      Meets fuel (Parser.commaSeparated listing item fuel count) fun items used _ =>
        ∃ texts, Commas texts used ∧ items ≠ [] ∧ count + items.length ≤ Listing.limit
          ∧ List.Forall₂ (fun a text => ∃ tail, P a text tail) items texts
  | 0, _, _ => Meets.zero
  | fuel + 1, count, hn => by
      rw [Parser.commaSeparated]
      have hrest : Meets (fuel + 1)
          (item >>= fun first => accept? [.comma] >>= fun o => match o with
            | some _ => Parser.commaSeparated listing item fuel (count + 1) >>= fun more =>
                Pure.pure (first :: more)
            | none => Pure.pure [first]) fun items used _ =>
          ∃ texts, Commas texts used ∧ items ≠ []
            ∧ (count < Listing.limit → count + items.length ≤ Listing.limit)
            ∧ List.Forall₂ (fun a text => ∃ tail, P a text tail) items texts := by
        refine Meets.imp (Meets.bind (hitem.mono hn) fun first => Meets.accept
          (fun t _ => Meets.bind (Meets.commaSeparated hitem fuel (count + 1) (by omega))
            fun more => Meets.pure) Meets.pure) ?_
        rintro items used rest ⟨first, u, v, rfl, hfirst, h⟩
        rcases h with ⟨comma, w, rfl, hcomma, more, y, z, rfl, hmore, rfl, rfl⟩ | ⟨-, rfl, rfl⟩
        · obtain ⟨texts, hcommas, hne, hlen, hall⟩ := hmore
          have htexts : texts ≠ [] := by
            rintro rfl
            exact hne (by cases hall; rfl)
          refine ⟨u :: texts, ?_, List.cons_ne_nil _ _, fun _ => ?_, .cons ⟨_, hfirst⟩ hall⟩
          · simpa using Commas.more (List.mem_singleton.mp hcomma) htexts hcommas
          · rw [List.length_cons]; omega
        · refine ⟨[u], ?_, List.cons_ne_nil _ _, fun h => h, .cons ⟨_, hfirst⟩ .nil⟩
          simpa using Commas.one u
      split
      · -- beyond the limit there is a complaint, and the rest does not matter
        intro c hc
        exact Meets.report (f := fun _ => _) hrest c hc
      · next hlimit =>
          refine hrest.imp ?_
          rintro items used rest ⟨texts, hcommas, hne, hlen, hall⟩
          exact ⟨texts, hcommas, hne, hlen (by omega), hall⟩

/-- A list up to a closing token; there may be nothing in it. -/
lemma Meets.listUpTo {listing : Listing} {close : Kind} {item : Parser α}
    {P : α → List Token → List Token → Prop} (hitem : Meets n item P) :
    Meets n (Parser.listUpTo listing close n item) fun items used _ =>
      ∃ texts, Commas texts used ∧ items.length ≤ Listing.limit
        ∧ List.Forall₂ (fun a text => ∃ tail, P a text tail) items texts := by
  rw [Parser.listUpTo]
  refine Meets.imp (Meets.nextIs Meets.pure
    (Meets.commaSeparated hitem n 0 (Nat.le_refl n))) ?_
  rintro items used rest (⟨rfl, rfl⟩ | ⟨-, texts, hcommas, -, hlen, hall⟩)
  · exact ⟨[], .none, Nat.zero_le _, .nil⟩
  · exact ⟨texts, hcommas, by omega, hall⟩

/-! ## Reading something -/

/-- With something in front of it, the parser reads at least one token if it answers. -/
def Shrinks (n : Nat) (p : Parser α) : Prop :=
  ∀ c : Cursor, c.rest ≠ [] → c.rest.length < n → ∀ a d, p c = .ok a d →
    d.rest.length < c.rest.length

/-- A parser steps forward, whatever else is said of it. -/
lemma Meets.length_le {p : Parser α} {Q : α → List Token → List Token → Prop} (h : Meets n p Q)
    (hc : c.rest.length < n) {a : α} (hp : p c = .ok a d) : d.rest.length ≤ c.rest.length := by
  have hr := h c hc
  rw [hp] at hr
  obtain ⟨used, new, hrest, -⟩ := hr
  rw [hrest, List.length_append]
  omega

lemma bind_eq_ok {p : Parser α} {f : α → Parser β} {b : β} {e : Cursor} (h : (p >>= f) c = .ok b e) :
    ∃ a d, p c = .ok a d ∧ f a d = .ok b e := by
  match hp : p c with
  | .ok a d => exact ⟨a, d, rfl, by rwa [bind_ok hp] at h⟩
  | .error x d => rw [bind_error hp] at h; cases h

/-- It is enough that what comes last reads something. -/
lemma Shrinks.bind {p : Parser α} {f : α → Parser β} {P : α → List Token → List Token → Prop}
    {Q : α → β → List Token → List Token → Prop} (hp : Meets n p P) (hQ : ∀ a, Meets n (f a) (Q a))
    (hf : ∀ a, Shrinks n (f a)) : Shrinks n (p >>= f) := by
  intro c hne hc b e h
  obtain ⟨a, d, hpa, hfa⟩ := bind_eq_ok h
  have hd := hp.length_le hc hpa
  have he := (hQ a).length_le (Nat.lt_of_le_of_lt hd hc) hfa
  by_cases hnil : d.rest = []
  · have hpos := List.length_pos_iff.mpr hne
    rw [hnil, List.length_nil] at he
    omega
  · have := hf a d hnil (Nat.lt_of_le_of_lt hd hc) b e hfa
    omega

/-- It is enough that what comes first reads something. -/
lemma Shrinks.andThen {p : Parser α} {f : α → Parser β} {Q : α → β → List Token → List Token → Prop}
    (hp : Shrinks n p) (hf : ∀ a, Meets n (f a) (Q a)) : Shrinks n (p >>= f) := by
  intro c hne hc b e h
  obtain ⟨a, d, hpa, hfa⟩ := bind_eq_ok h
  have hd := hp c hne hc a d hpa
  have he := (hf a).length_le (Nat.lt_trans hd hc) hfa
  omega

/-- A token that is looked for is read, or the rest has to read something. -/
lemma Shrinks.accept {kinds : List Kind} {f : Option Token → Parser β}
    {P : Token → β → List Token → List Token → Prop}
    (hsome : ∀ t, t.kind ∈ kinds → Meets n (f (some t)) (P t)) (hnone : Shrinks (n + 1) (f none)) :
    Shrinks (n + 1) (accept? kinds >>= f) := by
  intro c hne hc b e h
  rcases avoids_or kinds c.rest with ha | ⟨t, tail, hrest, hk⟩
  · rw [bind_ok (accept?_none ha)] at h
    exact hnone c hne hc b e h
  · rw [bind_ok (accept?_some hrest hk)] at h
    rw [hrest, List.length_cons] at hc ⊢
    have := (hsome t hk).length_le (c := { c with rest := tail }) (Nat.lt_of_succ_lt_succ hc) h
    exact Nat.lt_succ_of_le this

/-- A token that has to be there is read. -/
lemma Shrinks.expect {kind : Kind} {what : Expected} {f : Token → Parser β}
    {P : Token → β → List Token → List Token → Prop}
    (hf : ∀ t, t.kind = kind → Meets n (f t) (P t)) :
    Shrinks (n + 1) (Parser.expect kind what >>= f) := by
  rw [expect_bind]
  refine Shrinks.accept (fun t ht => hf t (List.mem_singleton.mp ht)) fun c _ _ a d h => ?_
  cases h

/-- After something has been read, one token less is left. -/
lemma Result.bind_shrinks {p : Parser α} {f : α → Parser β} {P : α → List Token → List Token → Prop}
    {Q : α → β → List Token → List Token → Prop} (hne : c.rest ≠ []) (hc : c.rest.length < n + 1)
    (hp : Meets (n + 1) p P) (hshrinks : Shrinks (n + 1) p) (hf : ∀ a, Meets n (f a) (Q a)) :
    Result c (fun b used rest => ∃ a u v, used = u ++ v ∧ P a u (v ++ rest) ∧ Q a b v rest)
      ((p >>= f) c) := by
  have h := hp c hc
  match hr : p c with
  | .error e d => rw [bind_error hr]; rw [hr] at h; exact h
  | .ok a d =>
      have hd := hshrinks c hne hc a d hr
      rw [hr] at h
      obtain ⟨used, new, hrest, hnew, hP⟩ := h
      rw [bind_ok hr]
      refine Result.after hrest hnew ((hf a d (by omega)).imp fun b v rest hv hQ h0 => ?_)
      exact ⟨a, used, v, rfl, hv ▸ hP h0, hQ⟩

end KScript.Parser

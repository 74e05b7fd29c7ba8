import KScript.Proofs.Parser.Reading

/-!
# Parsers that read a given text

The other direction of `Meets`: `Reads p a ts rest` says that the parser answers `a` when it has `ts`
in front of it, that it reads all of `ts` and nothing of the `rest` that follows, and that it has
nothing to complain about.  One rule for each way to put parsers together.
-/

namespace KScript.Parser

variable {α β : Type} {n : Nat} {a : α} {b : β} {u v ts rest : List Token}

/-- The parser answers `a` after reading exactly `ts`, if `rest` follows. -/
def Reads (p : Parser α) (a : α) (ts rest : List Token) : Prop :=
  ∀ endLine reports, p ⟨ts ++ rest, endLine, reports⟩ = .ok a ⟨rest, endLine, reports⟩

/-- The parser reads whatever stands in the relation, as long as there are fewer than `n` tokens. -/
def Completes (n : Nat) (p : Parser α) (R : α → List Token → List Token → Prop) : Prop :=
  ∀ a ts rest, R a ts rest → (ts ++ rest).length < n → Reads p a ts rest

lemma Reads.pure : Reads (Pure.pure a) a [] rest := fun _ _ => rfl

/-- One parser after the other. -/
lemma Reads.bind {p : Parser α} {f : α → Parser β} (hp : Reads p a u (v ++ rest))
    (hf : Reads (f a) b v rest) : Reads (p >>= f) b (u ++ v) rest := by
  intro endLine reports
  rw [List.append_assoc, bind_ok (hp endLine reports)]
  exact hf endLine reports

/-- The same if nothing is left for the second parser. -/
lemma Reads.last {p : Parser α} {f : α → Parser β} (hp : Reads p a u rest)
    (hf : Reads (f a) b [] rest) : Reads (p >>= f) b u rest := by
  intro endLine reports
  rw [bind_ok (hp endLine reports)]
  exact hf endLine reports

/-! ## Single tokens -/

lemma avoids_nil {kinds : List Kind} : Avoids kinds [] := by
  intro t ht
  simp at ht

lemma avoids_cons {kinds : List Kind} {t : Token} : Avoids kinds (t :: rest) ↔ t.kind ∉ kinds := by
  simp [Avoids]

/-- A token that is looked for and is there. -/
lemma Reads.found {kinds : List Kind} {f : Option Token → Parser β} {t : Token}
    (ht : t.kind ∈ kinds) (hf : Reads (f (some t)) b v rest) :
    Reads (accept? kinds >>= f) b (t :: v) rest := by
  intro endLine reports
  rw [List.cons_append, bind_ok (accept?_some rfl ht)]
  exact hf endLine reports

/-- A token that is looked for and is not there. -/
lemma Reads.absent {kinds : List Kind} {f : Option Token → Parser β} (h : Avoids kinds (ts ++ rest))
    (hf : Reads (f none) b ts rest) : Reads (accept? kinds >>= f) b ts rest := by
  intro endLine reports
  rw [bind_ok (accept?_none h)]
  exact hf endLine reports

/-- A token that has to be there. -/
lemma Reads.expect {kind : Kind} {what : Expected} {f : Token → Parser β} {t : Token}
    (ht : t.kind = kind) (hf : Reads (f t) b v rest) :
    Reads (Parser.expect kind what >>= f) b (t :: v) rest := by
  rw [expect_bind]
  exact Reads.found (List.mem_singleton.mpr ht) hf

lemma Reads.token {kind : Kind} {what : Expected} {t : Token} (ht : t.kind = kind) :
    Reads (Parser.expect kind what) t [t] rest := by
  rw [← bind_pure (Parser.expect kind what)]
  exact Reads.expect ht Reads.pure

lemma Reads.peek {f : Option Token → Parser β} {t : Token} (hf : Reads (f (some t)) b (t :: v) rest) :
    Reads (peek? >>= f) b (t :: v) rest := hf

/-- Stepping over a token that has been looked at. -/
lemma Reads.advance {f : Unit → Parser β} {t : Token} (hf : Reads (f ()) b v rest) :
    Reads (Parser.advance >>= f) b (t :: v) rest := hf

/-- A token that is looked at and is there. -/
lemma Reads.nextIs {kind : Kind} {f : Bool → Parser β} {t : Token} {tail : List Token}
    (hts : ts ++ rest = t :: tail) (ht : t.kind = kind) (hf : Reads (f true) b ts rest) :
    Reads (Parser.nextIs kind >>= f) b ts rest := by
  intro endLine reports
  rw [bind_ok (nextIs_true hts ht)]
  exact hf endLine reports

/-- A token that is looked at and is not there. -/
lemma Reads.nextIsNot {kind : Kind} {f : Bool → Parser β} (h : Avoids [kind] (ts ++ rest))
    (hf : Reads (f false) b ts rest) : Reads (Parser.nextIs kind >>= f) b ts rest := by
  intro endLine reports
  rw [bind_ok (nextIs_false h)]
  exact hf endLine reports

/-! ## Lists -/

/-- The next token is of one of these kinds. -/
def Opens (kinds : List Kind) (rest : List Token) : Prop :=
  ∃ t tail, rest = t :: tail ∧ t.kind ∈ kinds

/-- Items with commas between them, up to a token that is no comma. -/
lemma Reads.commaSeparated {listing : Listing} {item : Parser α} {close : Kind}
    (hclose : close ≠ .comma) (hrest : Opens [close] rest) :
    ∀ {items : List α} {texts : List (List Token)}, List.Forall₂ (fun a text => ∀ tail,
        Opens [.comma, close] tail → (text ++ tail).length < n → Reads item a text tail) items texts →
      ∀ {ts : List Token} (fuel count : Nat), Commas texts ts → items ≠ [] →
        count + items.length ≤ Listing.limit → (ts ++ rest).length < fuel → fuel ≤ n →
        Reads (Parser.commaSeparated listing item fuel count) items ts rest := by
  intro items texts hall
  obtain ⟨t, tail, rfl, ht⟩ := hrest
  have htk := List.mem_singleton.mp ht
  induction hall with
  | nil => exact fun _ _ _ hne => absurd rfl hne
  | @cons first text items texts hfirst hall ih =>
      intro ts fuel count hcommas _ hcount hlen hn
      have hlimit : ¬ Listing.limit ≤ count := by
        rw [List.length_cons] at hcount
        omega
      cases fuel with
      | zero => exact absurd hlen (Nat.not_lt_zero _)
      | succ fuel =>
          rw [Parser.commaSeparated, if_neg hlimit]
          cases hcommas with
          | one =>
              obtain rfl : items = [] := by cases hall; rfl
              have hread := hfirst (t :: tail) ⟨t, tail, rfl, by simp [htk]⟩ (by omega)
              exact Reads.last hread
                (Reads.absent (avoids_cons.mpr (by simpa [htk] using hclose)) Reads.pure)
          | @more comma _ texts more hkind hne htail =>
              have hitems : items ≠ [] := by
                rintro rfl
                exact hne (by cases hall; rfl)
              have hlen' : (text ++ (comma :: more ++ (t :: tail))).length < fuel + 1 := by
                simpa using hlen
              have hread := hfirst (comma :: more ++ (t :: tail)) ⟨comma, _, rfl, by simp [hkind]⟩
                (by omega)
              have hmore := ih fuel (count + 1) htail hitems
                (by rw [List.length_cons] at hcount; omega)
                (by simp only [List.length_append, List.length_cons] at hlen' ⊢; omega) (by omega)
              exact Reads.bind hread (Reads.found (by simp [hkind]) (Reads.last hmore Reads.pure))

/-- A list begins with its first item. -/
lemma commas_cons {text : List Token} {texts : List (List Token)} (h : Commas (text :: texts) ts) :
    ∃ v, ts = text ++ v := by
  cases h with
  | one => exact ⟨[], (List.append_nil _).symm⟩
  | more _ _ _ => exact ⟨_, rfl⟩

/-- A list up to a closing token. -/
lemma Reads.listUpTo {listing : Listing} {item : Parser α} {close : Kind} (hclose : close ≠ .comma)
    (hrest : Opens [close] rest) {items : List α} {texts : List (List Token)}
    (hall : List.Forall₂ (fun a text => ∀ tail, Opens [.comma, close] tail →
      (text ++ tail).length < n → Reads item a text tail) items texts)
    (hcommas : Commas texts ts) (hlimit : items.length ≤ Listing.limit)
    (hopens : items ≠ [] → Avoids [close] (ts ++ rest)) (hlen : (ts ++ rest).length < n) :
    Reads (Parser.listUpTo listing close n item) items ts rest := by
  rw [Parser.listUpTo]
  by_cases hitems : items = []
  · subst hitems
    obtain rfl : ts = [] := by cases hall; cases hcommas; rfl
    obtain ⟨t, tail, rfl, ht⟩ := hrest
    exact Reads.nextIs rfl (List.mem_singleton.mp ht) Reads.pure
  · exact Reads.nextIsNot (hopens hitems) (Reads.commaSeparated hclose hrest hall n 0 hcommas hitems
      (by omega) hlen (Nat.le_refl n))

end KScript.Parser

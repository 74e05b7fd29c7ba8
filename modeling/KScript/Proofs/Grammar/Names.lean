import KScript.Proofs.Grammar.Lexed
import KScript.Proofs.Scope.Admitted

/-!
# The names of a script that was scanned

In a well-formed tree of lexed tokens every name is a word that can stand where it stands (`Proper`): an
identifier is never spelled `this` or `super`, since these are reserved.
-/

namespace KScript

open Scope
open KScript.Parser (Tree Item)

namespace Token

variable {t : Token}

lemma Scanned.declarable (h : t.Scanned) (hkind : t.kind = .identifier) : t.Declarable := by
  have hword : Kind.ofWord t.lexeme = .identifier := (h (by rw [hkind]; rfl)).trans hkind
  constructor
  · intro heq
    rw [heq] at hword
    exact absurd hword (by decide)
  · intro heq
    rw [heq] at hword
    exact absurd hword (by decide)

lemma Scanned.lexeme_this (h : t.Scanned) (hkind : t.kind = .thisWord) : t.lexeme = thisName :=
  Kind.eq_of_ofWord ((h (by rw [hkind]; rfl)).trans hkind) (by decide) (by decide)

lemma Scanned.lexeme_super (h : t.Scanned) (hkind : t.kind = .superWord) : t.lexeme = superName :=
  Kind.eq_of_ofWord ((h (by rw [hkind]; rfl)).trans hkind) (by decide) (by decide)

lemma Lexed.declarable (h : t.Lexed) (hkind : t.kind = .identifier) : t.Declarable :=
  h.scanned.declarable hkind

end Token

/-! ## Expressions -/

variable {inside : Bool}

mutual

theorem Expr.proper_of_lexed : ∀ {e : Tree}, e.Lexed → e.WellFormed inside → e.Proper
  | .literal _, _, _ => trivial
  | .array items, h, hw => Expr.properAll_of_lexed (l := items) h hw.2
  | .grouping inner, h, hw => Expr.proper_of_lexed (e := inner) h hw
  | .unary _ operand, h, hw => Expr.proper_of_lexed (e := operand) h.2 hw.2
  | .binary _ _ _, h, hw | .logical _ _ _, h, hw =>
      ⟨Expr.proper_of_lexed h.1 hw.2.1, Expr.proper_of_lexed h.2.2 hw.2.2⟩
  | .conditional _ _ _, h, hw => ⟨Expr.proper_of_lexed h.1 hw.2.1, Expr.proper_of_lexed h.2.1 hw.2.2.1,
      Expr.proper_of_lexed h.2.2 hw.2.2.2⟩
  | .variable _, h, hw => Token.Lexed.declarable h hw
  | .assign ref value, h, hw => by
      have href : ref.name.Declarable := h.1.declarable hw.1
      refine ⟨href, ?_⟩
      rcases hw.2 with hvalue | hvalue
      · exact Expr.proper_of_lexed h.2 hvalue
      · exact Expr.proper_of_lexedCompound href h.2 hvalue
  | .step _ _, h, hw => Token.Lexed.declarable h hw
  | .call _ _ _, h, hw => ⟨Expr.proper_of_lexed h.1 hw.2.1, Expr.properAll_of_lexed h.2.2 hw.2.2⟩
  | .get object _ _, h, hw => Expr.proper_of_lexed (e := object) h.1 hw.2
  | .set _ _ _ _, h, hw => ⟨Expr.proper_of_lexed h.1 hw.2.1, Expr.proper_of_lexed h.2.2 hw.2.2⟩
  | .receiver _, h, hw => (Token.Lexed.scanned h).lexeme_this hw
  | .inherited _ _, h, hw => h.1.scanned.lexeme_super hw.1

/-- What a compound assignment computes its value with reads the assigned name again. -/
theorem Expr.proper_of_lexedCompound {ref : Reference Unit} (href : ref.name.Declarable) :
    ∀ {value : Tree}, value.Lexed → Expr.WellFormedCompound inside ref value → value.Proper
  | .binary _ _ _, h, hw => by
      obtain ⟨-, rfl, hright⟩ := hw
      exact ⟨href, Expr.proper_of_lexed h.2.2 hright⟩
  | .literal _, _, hw | .array _, _, hw | .grouping _, _, hw | .unary _ _, _, hw | .logical _ _ _, _, hw
  | .conditional _ _ _, _, hw | .variable _, _, hw | .assign _ _, _, hw | .step _ _, _, hw
  | .call _ _ _, _, hw | .get _ _ _, _, hw | .set _ _ _ _, _, hw | .receiver _, _, hw
  | .inherited _ _, _, hw => hw.elim

theorem Expr.properAll_of_lexed : ∀ {l : List Tree}, Expr.LexedAll l → Expr.WellFormedEach inside l →
    Expr.ProperAll l
  | [], _, _ => trivial
  | _ :: _, h, hw => ⟨Expr.proper_of_lexed h.1 hw.1, Expr.properAll_of_lexed h.2 hw.2⟩

end

/-! ## Statements -/

lemma ForStart.proper_of_lexed {start : Option (ForStart Unit)} (h : ∀ clause ∈ start, clause.Lexed)
    (hfits : ForStart.Fits start) (hw : ForStart.WellFormed inside start) : ForStart.Proper start := by
  rcases start with _ | ⟨name, value⟩ | e
  · trivial
  · have ⟨hname, hvalue⟩ := h _ rfl
    exact ⟨hname.declarable hfits, fun e he => Expr.proper_of_lexed (hvalue e he) (hw e he)⟩
  · exact Expr.proper_of_lexed (h _ rfl) hw

mutual

theorem Stmt.proper_of_lexed : ∀ {context : Parser.Context} {s : Item}, s.Lexed → s.WellFormed context →
    s.Proper
  | _, .expr _, h, hw => Expr.proper_of_lexed h hw.2
  | _, .echo _, _, hw => hw.elim
  | _, .var _ _, h, hw =>
      ⟨h.1.declarable hw.1, fun e he => Expr.proper_of_lexed (h.2 e he) (hw.2 e he)⟩
  | _, .block body, h, hw => Stmt.properAll_of_lexed (l := body) h hw
  | _, .exit _ _, h, hw => Expr.proper_of_lexed h.2 hw.2
  | _, .branch _ _ _, h, hw => ⟨Expr.proper_of_lexed h.1 hw.2.1, Stmt.proper_of_lexed h.2.1 hw.2.2.1,
      Stmt.properOption_of_lexed h.2.2 hw.2.2.2⟩
  | _, .loop _ _, h, hw => ⟨Expr.proper_of_lexed h.1 hw.2.1, Stmt.proper_of_lexed h.2 hw.2.2⟩
  | _, .forLoop _ _ _ _, ⟨hs, ht, ha, hb⟩, ⟨hfits, hstart, htest, hafter, hbody⟩ =>
      ⟨ForStart.proper_of_lexed hs hfits.1 hstart, Expr.proper_of_lexed ht htest,
        fun e he => Expr.proper_of_lexed (ha e he) (hafter e he), Stmt.proper_of_lexed hb hbody⟩
  | _, .step _ _, h, hw => Token.Lexed.declarable h hw
  | _, .jump _ _, _, _ => trivial
  | _, .routine ⟨_, _, _⟩, h, hw =>
      ⟨h.1.declarable hw.1.1, fun p hp => (h.2.1 p hp).declarable (hw.1.2.1 p hp),
        Stmt.properAll_of_lexed h.2.2 hw.2⟩
  | _, .giveBack _ _, h, hw => fun e he => Expr.proper_of_lexed (h.2 e he) (hw.2 e he)
  | _, .classDecl _ _ _ _ _ _, ⟨hname, hsuper, hm, hs, hg, ht⟩, ⟨hfits, hwm, hws, hwg, hwt⟩ => by
      obtain ⟨hkind, hsuperkind, hfm, hfs, hfg, hft⟩ := hfits
      exact ⟨hname.declarable hkind, fun ref href => (hsuper ref href).declarable (hsuperkind ref href),
        Stmt.properRoutines_of_lexed hfm hm hwm, Stmt.properRoutines_of_lexed hfs hs hws,
        Stmt.properRoutines_of_lexed hfg hg hwg, Stmt.properRoutines_of_lexed hft ht hwt,
        fun r hr => (hfg r hr).2.2.2.1 rfl, fun r hr => (hft r hr).2.2.2.2 rfl⟩

theorem Stmt.properAll_of_lexed : ∀ {context : Parser.Context} {l : List Item},
    Stmt.LexedAll l → Stmt.WellFormedAll context l → Stmt.ProperAll l
  | _, [], _, _ => trivial
  | _, _ :: _, h, hw => ⟨Stmt.proper_of_lexed h.1 hw.1, Stmt.properAll_of_lexed h.2 hw.2⟩

theorem Stmt.properOption_of_lexed : ∀ {context : Parser.Context} {no : Option Item},
    Stmt.LexedOption no → Stmt.WellFormedOption context no → Stmt.ProperOption no
  | _, none, _, _ => trivial
  | _, some s, h, hw => Stmt.proper_of_lexed (s := s) h hw

theorem Stmt.properRoutines_of_lexed {form : RoutineForm} : ∀ {context : Parser.Context}
    {routines : List (Routine Item)}, (∀ r ∈ routines, r.Fits form) → Stmt.LexedRoutines routines →
    Stmt.WellFormedRoutines context routines → Stmt.ProperRoutines routines
  | _, [], _, _, _ => trivial
  | _, ⟨_, _, _⟩ :: _, hfits, h, hw =>
      ⟨fun p hp => (h.1.2.1 p hp).declarable ((hfits _ List.mem_cons_self).2.1 p hp),
        Stmt.properAll_of_lexed h.1.2.2 hw.1,
        Stmt.properRoutines_of_lexed (fun r hr => hfits r (List.mem_cons_of_mem _ hr)) h.2 hw.2⟩

end

end KScript

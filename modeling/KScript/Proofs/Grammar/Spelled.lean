import KScript.Proofs.Parser.RoundTrip
import KScript.Proofs.Scope.Places

/-!
# The tokens of the phrases of a script

Every phrase of a script that was read is spelled by tokens of the script (`Program.At.spelled`).  There are
two exceptions, which a script may leave to be understood: the value that a compound assignment computes,
whose operator is a part of the token that assigns, and the literal values for a condition or an exit code
that is not written.
-/

namespace KScript

open KScript.Parser (Tree Item Group ofGroup)

/-- The phrase is spelled by some of the tokens, or understood. -/
inductive Phrase.Spelled (ts : List Token) : Phrase Unit → Prop where
  | expr {inside : Bool} {e : Tree} {text : List Token} (h : e.Spells inside text)
      (hts : ∀ t ∈ text, t ∈ ts) : Spelled ts (.expr e)
  | compound {inside : Bool} {ref : Reference Unit} {equals : Token} {value : Tree} {text : List Token}
      (h : Expr.SpellsCompound inside ref equals value text) (hkind : ref.name.kind = .identifier)
      (hname : ref.name ∈ ts) (hequals : equals ∈ ts) (hts : ∀ t ∈ text, t ∈ ts) : Spelled ts (.expr value)
  | implied {value : Literal} (h : value ∈ [.bool true, .number (Double.ofNat 0)]) :
      Spelled ts (.expr (.literal value))
  | stmt {context : Parser.Context} {s : Item} {text : List Token} (h : s.Spells context text)
      (hts : ∀ t ∈ text, t ∈ ts) : Spelled ts (.stmt s)
  | made {e : Tree} (h : Spelled ts (.expr e)) : Spelled ts (.stmt (.expr e))

variable {ts text : List Token} {inside : Bool} {context : Parser.Context} {entered : List Construct}

namespace Phrase.Spelled

/-! ## Expressions -/

lemma named {ref : Reference Unit} (hkind : ref.name.kind = .identifier) (hname : ref.name ∈ ts) :
    Spelled ts (.expr (.variable ref)) := by
  have hspells : (Expr.variable ref).Spells false [ref.name] := ⟨rfl, hkind⟩
  exact .expr hspells (List.forall_mem_singleton.mpr hname)

lemma each {items : List Tree} {texts : List (List Token)} (h : Expr.SpellsEach inside items texts)
    (hts : ∀ text ∈ texts, ∀ t ∈ text, t ∈ ts) : ∀ e ∈ items, Spelled ts (.expr e) := by
  induction items generalizing texts with
  | nil => simp
  | cons first rest ih =>
      obtain ⟨_, _, rfl, hfirst, hrest⟩ := h
      simp only [List.forall_mem_cons] at hts ⊢
      exact ⟨.expr hfirst hts.1, ih hrest hts.2⟩

/-- The operands of an expression are spelled by tokens of the expression. -/
lemma operands {e : Tree} (h : e.Spells inside text) (hts : ∀ t ∈ text, t ∈ ts) :
    ∀ part ∈ e.operands, Spelled ts (.expr part) := by
  cases e with
  | array items =>
      obtain ⟨_, _, _, _, rfl, -, -, hcommas, hitems, -⟩ := h
      simp only [List.forall_mem_cons, List.forall_mem_append] at hts
      exact each hitems (hcommas.forall_mem hts.2.1)
  | grouping inner =>
      obtain ⟨_, _, _, rfl, -, -, hinner⟩ := h
      simp only [List.forall_mem_cons, List.forall_mem_append] at hts
      exact List.forall_mem_singleton.mpr (.expr (e := inner) hinner hts.2.1)
  | unary _ _ =>
      obtain ⟨_, rfl, hoperand, -⟩ := h
      simp only [List.forall_mem_cons] at hts
      exact List.forall_mem_singleton.mpr (.expr hoperand hts.2)
  | binary _ _ _ | logical _ _ _ =>
      obtain ⟨_, _, rfl, hleft, hright, -⟩ := h
      simp only [List.forall_mem_cons, List.forall_mem_append] at hts
      simp only [Expr.operands, List.forall_mem_cons]
      exact ⟨.expr hleft hts.1, .expr hright hts.2.2, by simp⟩
  | conditional _ _ _ =>
      obtain ⟨_, _, _, _, _, rfl, -, -, hcond, hyes, hno, -⟩ := h
      simp only [List.forall_mem_cons, List.forall_mem_append] at hts
      simp only [Expr.operands, List.forall_mem_cons]
      exact ⟨.expr hcond hts.1, .expr hyes hts.2.2.1, .expr hno hts.2.2.2.2, by simp⟩
  | assign ref value =>
      obtain ⟨_, _, rfl, hkind, hvalue⟩ := h
      simp only [List.forall_mem_cons] at hts
      refine List.forall_mem_singleton.mpr ?_
      rcases hvalue with ⟨-, hvalue⟩ | hvalue
      · exact .expr hvalue hts.2.2
      · exact .compound hvalue hkind hts.1 hts.2.1 hts.2.2
  | call _ _ _ =>
      obtain ⟨_, _, _, _, rfl, -, hcallee, hcommas, hargs, -⟩ := h
      simp only [List.forall_mem_cons, List.forall_mem_append] at hts
      simp only [Expr.operands, List.forall_mem_cons]
      exact ⟨.expr hcallee hts.1, each hargs (hcommas.forall_mem hts.2.2.1)⟩
  | get _ _ _ =>
      obtain ⟨_, _, rfl, -, hobject, -⟩ := h
      simp only [List.forall_mem_append] at hts
      exact List.forall_mem_singleton.mpr (.expr hobject hts.1)
  | set _ _ _ _ =>
      obtain ⟨_, _, _, _, rfl, -, -, hobject, hvalue, -⟩ := h
      simp only [List.forall_mem_cons, List.forall_mem_append] at hts
      simp only [Expr.operands, List.forall_mem_cons]
      exact ⟨.expr hobject hts.1, .expr hvalue hts.2.2.2.2, by simp⟩
  | literal _ | «variable» _ | step _ _ | receiver _ | inherited _ _ => simp [Expr.operands]

/-! ## Statements -/

lemma option {value : Option Tree} (h : Expr.SpellsOption inside value text)
    (hts : ∀ t ∈ text, t ∈ ts) : ∀ e ∈ value, Spelled ts (.expr e) := by
  rintro e rfl
  exact .expr h hts

lemma var {name : Token} {value : Option Tree} (h : name.SpellsVar inside value text)
    (hts : ∀ t ∈ text, t ∈ ts) : ∀ e ∈ value, Spelled ts (.expr e) := by
  rintro e rfl
  obtain ⟨_, _, _, rfl, -, -, he⟩ := h
  simp only [List.forall_mem_cons, List.forall_mem_append] at hts
  exact .expr he hts.2.2.1

lemma all {items : List Item} (h : Stmt.SpellsAll context items text) (hts : ∀ t ∈ text, t ∈ ts) :
    ∀ s ∈ items, Spelled ts (.stmt s) := by
  induction items generalizing text with
  | nil => simp
  | cons first rest ih =>
      obtain ⟨_, _, rfl, hfirst, hrest⟩ := h
      simp only [List.forall_mem_append, List.forall_mem_cons] at hts ⊢
      exact ⟨.stmt hfirst hts.1, ih hrest hts.2⟩

/-- The first clause of a `for` loop is spelled like a statement, or made one. -/
lemma start {clause : ForStart Unit} (h : ForStart.Spells context.inClass (some clause) text)
    (hfits : ForStart.Fits (some clause)) (hts : ∀ t ∈ text, t ∈ ts) :
    Spelled ts (.stmt clause.toStmt) := by
  cases clause with
  | var name value =>
      obtain ⟨word, b, rfl, hword, hvar⟩ := h
      exact .stmt (s := .var name value) ⟨word, b, rfl, hword, hvar, hfits⟩ hts
  | expr e =>
      obtain ⟨_, _, rfl, -, he⟩ := h
      simp only [List.forall_mem_append] at hts
      exact .made (.expr he hts.1)

lemma routines {group : Group} {role : Role} {outer : List Construct} {rs : List (Routine Item)}
    {texts : List (List Token)} (h : Stmt.SpellsRoutines context group rs texts)
    (hts : ∀ text ∈ texts, ∀ t ∈ text, t ∈ ts) {q : Phrase Unit}
    (hq : (entered, q) ∈ Routine.phrases role outer rs) : Spelled ts q := by
  induction rs generalizing texts with
  | nil => cases hq
  | cons r rest ih =>
      obtain ⟨name, params, body⟩ := r
      obtain ⟨_, _, _, _, _, rfl, -, -, -, hbody, hrest⟩ := h
      simp only [List.forall_mem_cons, List.forall_mem_append] at hts
      rw [Routine.phrases, List.flatMap_cons] at hq
      rcases List.mem_append.mp hq with hq | hq
      · obtain ⟨s, hs, heq⟩ := List.mem_map.mp hq
        obtain ⟨-, rfl⟩ := Prod.mk.inj heq
        exact all hbody hts.1.2.2.1 s hs
      · exact ih hrest hts.2 hq

/-- The phrases of a statement are spelled by tokens of the statement, or understood. -/
lemma phrases {s : Item} (h : s.Spells context text) (hts : ∀ t ∈ text, t ∈ ts) {q : Phrase Unit}
    (hq : (entered, q) ∈ s.phrases) : Spelled ts q := by
  cases s with
  | expr e =>
      obtain ⟨_, _, rfl, -, he, -⟩ := h
      simp only [List.forall_mem_append] at hts
      obtain ⟨-, rfl⟩ := Prod.mk.inj (List.mem_singleton.mp hq)
      exact .expr he hts.1
  | echo _ => exact h.elim
  | var name value =>
      obtain ⟨_, _, rfl, -, hvar, -⟩ := h
      simp only [List.forall_mem_cons] at hts
      obtain ⟨e, he, heq⟩ := List.mem_map.mp hq
      obtain ⟨-, rfl⟩ := Prod.mk.inj heq
      exact var hvar hts.2 e (Option.mem_toList.mp he)
  | block body =>
      obtain ⟨_, _, _, rfl, -, -, hbody⟩ := h
      simp only [List.forall_mem_cons, List.forall_mem_append] at hts
      obtain ⟨s, hs, heq⟩ := List.mem_map.mp hq
      obtain ⟨-, rfl⟩ := Prod.mk.inj heq
      exact all hbody hts.2.1 s hs
  | exit keyword code =>
      obtain ⟨_, _, rfl, -, hcode, -⟩ := h
      simp only [List.forall_mem_cons, List.forall_mem_append] at hts
      obtain ⟨-, rfl⟩ := Prod.mk.inj (List.mem_singleton.mp hq)
      rcases hcode with hcode | ⟨-, rfl⟩
      · exact .expr hcode hts.2.1
      · exact .implied (by simp)
  | branch condition yes no =>
      obtain ⟨_, _, _, _, _, _, rfl, -, -, -, htest, hyes, hno, -⟩ := h
      simp only [List.forall_mem_cons, List.forall_mem_append] at hts
      rcases List.mem_cons.mp hq with heq | hq
      · obtain ⟨-, rfl⟩ := Prod.mk.inj heq
        exact .expr htest hts.2.2.1
      rcases List.mem_cons.mp hq with heq | hq
      · obtain ⟨-, rfl⟩ := Prod.mk.inj heq
        exact .stmt hyes hts.2.2.2.2.1
      · obtain ⟨s, hs, heq⟩ := List.mem_map.mp hq
        obtain ⟨-, rfl⟩ := Prod.mk.inj heq
        obtain rfl := Option.mem_toList.mp hs
        obtain ⟨_, _, rfl, -, hs⟩ := hno
        simp only [List.forall_mem_cons] at hts
        exact .stmt hs hts.2.2.2.2.2.2
  | loop condition body =>
      obtain ⟨_, _, _, _, _, rfl, -, -, -, htest, hbody, -⟩ := h
      simp only [List.forall_mem_cons, List.forall_mem_append] at hts
      rcases List.mem_cons.mp hq with heq | hq
      · obtain ⟨-, rfl⟩ := Prod.mk.inj heq
        exact .expr htest hts.2.2.1
      · obtain ⟨-, rfl⟩ := Prod.mk.inj (List.mem_singleton.mp hq)
        exact .stmt hbody hts.2.2.2.2
  | forLoop start condition after body =>
      obtain ⟨_, _, _, _, _, _, _, _, rfl, -, -, -, -, hstart, htest, hafter, hbody, hfits, -⟩ := h
      simp only [List.forall_mem_cons, List.forall_mem_append] at hts
      obtain ⟨-, -, hts₁, hts₂, -, hts₃, -, hts₄⟩ := hts
      rcases List.mem_append.mp hq with hq | hq
      · obtain ⟨clause, hclause, heq⟩ := List.mem_map.mp hq
        obtain ⟨-, rfl⟩ := Prod.mk.inj heq
        obtain rfl := Option.mem_toList.mp hclause
        exact Spelled.start hstart hfits hts₁
      rcases List.mem_cons.mp hq with heq | hq
      · obtain ⟨-, rfl⟩ := Prod.mk.inj heq
        rcases htest with htest | ⟨-, rfl⟩
        · exact .expr htest hts₂
        · exact .implied (by simp)
      rcases List.mem_cons.mp hq with heq | hq
      · obtain ⟨-, rfl⟩ := Prod.mk.inj heq
        exact .stmt hbody hts₄
      · obtain ⟨e, he, heq⟩ := List.mem_map.mp hq
        obtain ⟨-, rfl⟩ := Prod.mk.inj heq
        exact option hafter hts₃ e (Option.mem_toList.mp he)
  | step _ _ | jump _ _ => cases hq
  | routine decl =>
      obtain ⟨name, params, body⟩ := decl
      obtain ⟨_, _, _, _, rfl, -, -, -, hbody, -⟩ := h
      simp only [List.forall_mem_cons, List.forall_mem_append] at hts
      simp only [Stmt.phrases, Routine.phrases, List.flatMap_singleton] at hq
      obtain ⟨s, hs, heq⟩ := List.mem_map.mp hq
      obtain ⟨-, rfl⟩ := Prod.mk.inj heq
      exact all hbody hts.2.2.1 s hs
  | giveBack keyword value =>
      obtain ⟨_, _, rfl, -, hvalue, -⟩ := h
      simp only [List.forall_mem_cons, List.forall_mem_append] at hts
      obtain ⟨e, he, heq⟩ := List.mem_map.mp hq
      obtain ⟨-, rfl⟩ := Prod.mk.inj heq
      exact option hvalue hts.2.1 e (Option.mem_toList.mp he)
  | classDecl name superclass methods statics getters setters =>
      obtain ⟨_, _, _, _, _, rfl, -, -, -, hparent, hm, hs, hg, ht, hfits⟩ := h
      simp only [List.forall_mem_cons, List.forall_mem_append] at hts
      obtain ⟨-, -, hp, -, hmembers, -⟩ := hts
      simp only [Stmt.phrases, List.mem_append] at hq
      rcases hq with (((hq | hq) | hq) | hq) | hq
      · obtain ⟨ref, href, heq⟩ := List.mem_map.mp hq
        obtain ⟨-, rfl⟩ := Prod.mk.inj heq
        obtain rfl := Option.mem_toList.mp href
        obtain ⟨_, rfl, -⟩ := hparent
        simp only [List.forall_mem_cons] at hp
        exact named (hfits.2.1 ref rfl) hp.2.1
      · exact routines hm (forall_mem_ofGroup hmembers) hq
      · exact routines hs (forall_mem_ofGroup hmembers) hq
      · exact routines hg (forall_mem_ofGroup hmembers) hq
      · exact routines ht (forall_mem_ofGroup hmembers) hq

/-- **The parts of a spelled phrase are spelled.** -/
theorem part {p q : Phrase Unit} (h : Spelled ts p) (hq : (entered, q) ∈ p.below) : Spelled ts q := by
  cases h with
  | expr h hts =>
      obtain ⟨part, hpart, heq⟩ := List.mem_map.mp hq
      obtain ⟨-, rfl⟩ := Prod.mk.inj heq
      exact operands h hts part hpart
  | @compound _ _ _ value _ h hkind hname _ hts =>
      cases value with
      | binary left op right =>
          obtain ⟨-, rfl, -, hright⟩ := h
          simp only [Phrase.below, Expr.operands, List.map_cons, List.map_nil, List.mem_cons,
            List.not_mem_nil, or_false, Prod.mk.injEq] at hq
          rcases hq with ⟨-, rfl⟩ | ⟨-, rfl⟩
          · exact named hkind hname
          · exact .expr hright hts
      | _ => exact h.elim
  | implied => cases hq
  | stmt h hts => exact phrases h hts hq
  | made h =>
      obtain ⟨-, rfl⟩ := Prod.mk.inj (List.mem_singleton.mp hq)
      exact h

end Phrase.Spelled

/-- **Every phrase of a program is spelled by tokens of the program**, or understood. -/
theorem Program.At.spelled {program : Program Unit} {around : List Construct} {p : Phrase Unit}
    (h : program.At around p) (hprogram : Program.Spells program ts) : p.Spelled ts := by
  induction h with
  | top hs => exact Phrase.Spelled.all hprogram (fun _ ht => ht) _ hs
  | part _ hq ih => exact ih.part hq

end KScript

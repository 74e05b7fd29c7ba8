import KScript.Proofs.Chronicle.Evaluator
import Mathlib.Data.List.Infix

/-!
# The laws of a chronicle

Each entry of a chronicle is accounted for by the entries before it (`Entry.Law`): a value that an event makes
is new, a value that is got from a cell is the one that was last put there, and whatever an expression gives or
a routine gives back was just made, was just got, or was just given by a part of it.  A chronicle is lawful if
all of its entries are.

In a lawful chronicle every value has its origin (`Chronicle.Lawful.stems`), and no two events make values that
are the same (`Chronicle.Lawful.number_unique`).
-/

namespace KScript

/-! ## Looking back -/

namespace Chronicle

/-- The latest entry. -/
def Last (past : List Entry) (entry : Entry) : Prop := past.head? = some entry

/-- The entry of that number, the oldest being number zero. -/
def nth (past : List Entry) (k : Nat) : Option Entry := past.reverse[k]?

/-- What was last put into a cell under a name. -/
def latest : List Entry → Cell → String → Option Value
  | [], _, _ => none
  | .put cell name v :: rest, other, key =>
    if cell = other ∧ name = key then some v else latest rest other key
  | _ :: rest, other, key => latest rest other key

end Chronicle

open Chronicle

namespace Value

/-- The value is a literal one, or one of the events has made it. -/
def Stems (past : List Entry) (v : Value) : Prop :=
  (∃ literal, v = .scalar literal) ∨ ∃ origin, .made origin v ∈ past

/-- Some expression gave the value. -/
def Given (past : List Entry) (v : Value) : Prop := ∃ e, .gave e v ∈ past

/-- The event of that number has made the value. -/
def From (past : List Entry) (k : Nat) (v : Value) : Prop :=
  ∃ origin, nth past k = some (.made origin v)

/-- The values that a value contains for good: the items of an array, the routines of a class, the class of an
object. -/
def Contains : Value → Value → Prop
  | .array _ items, part => part ∈ items
  | .classValue cls, part => ∃ l ∈ cls.lineage, ∃ c, l.Holds c ∧ part = .routine c
  | .object o, part => part = .classValue o.cls
  | _, _ => False

end Value

/-! ## Laws -/

/-- What an event makes, given the entries before it. -/
def Origin.Makes (before : List Entry) : Origin → Value → Prop
  | .array items, v =>
    ∃ ident values, v = .array ident values ∧ items.Forall₂ (fun e x => .gave e x ∈ before) values
  | .routine decl, v => ∃ c, v = .routine c ∧ c.decl = decl
  | .classDecl name, v => ∃ cls, v = .classValue cls ∧ cls.name = name.lexeme
  | .construction cls, v => ∃ o, v = .object o ∧ o.cls = cls
  | .binding method receiver, v =>
    ∃ ident address, v = .routine { method with ident, env := address :: method.env }
      ∧ Last before (.put (.frame address) Scope.thisName (.object receiver))
  | .builtIn n, v => v = .native n

namespace Value

/-- What a call of the value comes back with, if its entry has that number. -/
def Answers (before : List Entry) (since : Nat) : Value → Value → Prop
  | .native _, v => ∃ literal, v = .scalar literal
  | .routine c, v => Last before (.left c v)
  | .classValue cls, v => nth before (since + 1) = some (.made (.construction cls) v)
  | _, _ => False

/-- What the property of that name gives: what is in the field, a method that has just been bound, what the
get method gives back, or a routine of a class. -/
def Yields (before : List Entry) (name : String) : Value → Value → Prop
  | .object o, v =>
    Last before (.got (.object o.ident) name v)
      ∨ (∃ method, o.cls.method? name = some method ∧ Last before (.made (.binding method o) v))
      ∨ ∃ getter c, o.cls.getter? name = some getter ∧ c.decl = getter.decl ∧ Last before (.left c v)
  | .classValue cls, v => ∃ c, cls.static? name = some c ∧ v = .routine c
  | _, _ => False

end Value

/-- What an expression gives. -/
def Expr.Gives (before : List Entry) : Expr Depth → Value → Prop
  | .literal value, v => v = .scalar value
  | .array items, v => Last before (.made (.array items) v)
  | .grouping inner, v => Last before (.gave inner v)
  | .unary op operand, v => ∃ a, Last before (.gave operand a) ∧ Operator.unary op a = .ok v
  | .binary left op right, v =>
    ∃ a b, .gave left a ∈ before ∧ Last before (.gave right b) ∧ Operator.binary op a b = .ok v
  | .logical left _ right, v => Last before (.gave left v) ∨ Last before (.gave right v)
  | .conditional _ yes no, v => Last before (.gave yes v) ∨ Last before (.gave no v)
  | .variable ref, v => ∃ cell, Last before (.got cell ref.name.lexeme v)
  | .assign ref value, v =>
    ∃ cell older, before = .put cell ref.name.lexeme v :: older ∧ Last older (.gave value v)
  | .step _ _, v => ∃ x, v = .number x
  | .call callee _ _, v =>
    ∃ since target, .gave callee target ∈ before ∧ Last before (.came since target v)
  | .get object name _, v => ∃ target, .gave object target ∈ before ∧ target.Yields before name.lexeme v
  | .set object name value _, v =>
    .gave value v ∈ before ∧ ∃ o, .gave object (.object o) ∈ before
      ∧ (Last before (.put (.object o.ident) name.lexeme v)
        ∨ ∃ setter c w, o.cls.setter? name.lexeme = some setter ∧ c.decl = setter.decl
          ∧ Last before (.left c w))
  | .receiver ref, v => ∃ cell, Last before (.got cell ref.name.lexeme v)
  | .inherited _ method, v =>
    ∃ (cls : ClassValue) (c : Closure) (o : Object), cls.method? method.lexeme = some c
      ∧ Last before (.made (.binding c o) v)

namespace Stmt

/-- What a statement returns: the value of its expression, or what its part has returned. -/
def Returns (before : List Entry) : Stmt Depth → Value → Prop
  | .giveBack _ (some e), v => Last before (.gave e v)
  | .giveBack _ none, v => v = .zilch
  | _, v => ∃ part, Last before (.ran part (.returned v))

/-- What a declaration binds to its name. -/
def Declares (before : List Entry) : Stmt Depth → Prop
  | .var name value =>
    ∃ address v older, before = .put (.frame address) name.lexeme v :: older
      ∧ (∀ e, value = some e → Last older (.gave e v)) ∧ (value = none → v = .zilch)
  | .routine decl =>
    ∃ address v older, before = .put (.frame address) decl.name.lexeme v :: older
      ∧ Last older (.made (.routine decl) v)
  | .classDecl name _ _ _ _ _ =>
    ∃ address v older, before = .put (.frame address) name.lexeme v :: older
      ∧ Last older (.made (.classDecl name) v)
  | _ => True

/-- How a statement ends. -/
def Ends (before : List Entry) (s : Stmt Depth) : Completion → Prop
  | .returned v => v.Stems before ∧ s.Returns before v
  | .normal => s.Declares before
  | _ => True

end Stmt

/-- What a routine gives back: its receiver if it is a constructor, or else what its body has returned. -/
def Closure.Leaves (before : List Entry) (c : Closure) (v : Value) : Prop :=
  if c.isConstructor then ∃ cell, Last before (.got cell Scope.thisName v)
  else v = .zilch ∨ ∃ s, Last before (.ran s (.returned v))

/-- The law of an entry, given the entries before it. -/
def Chronicle.Entry.Law (before : List Entry) : Entry → Prop
  | made origin v =>
    origin.Makes before v ∧ (∀ other w, .made other w ∈ before → v.same w = false)
      ∧ ∀ part, v.Contains part → part.Stems before
  | put _ _ v => v.Stems before
  | got cell name v => latest before cell name = some v
  | called callee args => callee.Given before ∧ ∀ v ∈ args, v.Given before
  | came since callee v =>
    (∃ args, nth before since = some (.called callee args)) ∧ callee.Answers before since v
  | entered c args =>
    (Value.routine c).Stems before ∧ (∀ v ∈ args, v.Given before)
      ∧ ∃ address, puts address ((c.decl.params.map (·.lexeme)).zip args) <+: before
  | left c v => c.Leaves before v
  | gave e v => v.Stems before ∧ e.Gives before v
  | ran s completion => s.Ends before completion

/-- Every entry has its law. -/
def Chronicle.Lawful : List Entry → Prop
  | [] => True
  | entry :: before => entry.Law before ∧ Lawful before

/-- The values that an entry tells of. -/
def Chronicle.Entry.Tells : Entry → Value → Prop
  | made _ v, w => w = v
  | put _ _ v, w => w = v
  | got _ _ v, w => w = v
  | called callee args, w => w ∈ callee :: args
  | came _ _ v, w => w = v
  | entered c args, w => w ∈ .routine c :: args
  | left _ v, w => w = v
  | gave _ v, w => w = v
  | ran _ completion, w => completion = .returned w

/-- The values of a chronicle: those it tells of, and those that they hold. -/
inductive Value.Seen (past : List Entry) : Value → Prop where
  | told {entry : Entry} {v : Value} (hentry : entry ∈ past) (h : entry.Tells v) : Seen past v
  | held {whole part : Value} (hwhole : Seen past whole) (h : whole.Contains part) : Seen past part

/-! ## A chronicle grows -/

namespace Chronicle

variable {past older : List Entry} {entry : Entry} {k : Nat} {cell : Cell} {name : String} {v w : Value}

@[simp] lemma last_cons {first : Entry} : Last (first :: older) entry ↔ first = entry := by
  simp [Last]

lemma Last.mem (h : Last past entry) : entry ∈ past := List.mem_of_mem_head? h

lemma nth_lt (h : nth past k = some entry) : k < past.length := by
  obtain ⟨hlt, _⟩ := List.getElem?_eq_some_iff.mp h
  simpa using hlt

lemma nth_mono (h : older <:+ past) (hnth : nth older k = some entry) : nth past k = some entry := by
  obtain ⟨new, rfl⟩ := h
  have hlt : k < older.reverse.length := by simpa using nth_lt hnth
  rw [nth, List.reverse_append, List.getElem?_append_left hlt]
  exact hnth

/-- The number of an entry is the number of those before it. -/
lemma nth_length : nth (entry :: older) older.length = some entry := by simp [nth]

lemma nth_cons (first : Entry) (rest : List Entry) (k : Nat) :
    nth (first :: rest) k = if k = rest.length then some first else nth rest k := by
  rcases Nat.lt_trichotomy k rest.length with hlt | rfl | hgt
  · rw [if_neg hlt.ne, nth, List.reverse_cons, List.getElem?_append_left (by simpa using hlt)]
    rfl
  · rw [if_pos rfl, nth_length]
  · rw [if_neg hgt.ne', nth, nth, List.getElem?_eq_none (by simpa using hgt),
      List.getElem?_eq_none (by simpa using hgt.le)]

/-- An entry has a number. -/
lemma mem_iff_nth : entry ∈ past ↔ ∃ k, nth past k = some entry := by
  rw [← List.mem_reverse, List.mem_iff_getElem?]
  rfl

/-- What was last put somewhere was put there. -/
lemma mem_of_latest (h : latest past cell name = some v) : .put cell name v ∈ past := by
  induction past with
  | nil => cases h
  | cons first rest ih =>
      cases first with
      | put cell' name' w =>
          simp only [latest] at h
          split at h
          · next heq =>
              obtain ⟨rfl, rfl⟩ := heq
              exact Option.some.inj h ▸ List.mem_cons_self
          · exact List.mem_cons_of_mem _ (ih h)
      | _ => exact List.mem_cons_of_mem _ (ih h)

end Chronicle

namespace Value

variable {past older : List Entry} {v : Value}

@[simp] lemma stems_scalar (literal : Literal) : (Value.scalar literal).Stems past := .inl ⟨literal, rfl⟩

lemma Stems.mono (h : older <:+ past) (hv : v.Stems older) : v.Stems past :=
  hv.imp id fun ⟨origin, hmade⟩ => ⟨origin, h.subset hmade⟩

lemma Given.mono (h : older <:+ past) (hv : v.Given older) : v.Given past :=
  hv.imp fun _ hgave => h.subset hgave

end Value

namespace Chronicle.Lawful

variable {past : List Entry} {entry : Entry} {cell : Cell} {name : String} {v w : Value}

/-- The law of an entry, and the lawful chronicle before it. -/
lemma law (h : Lawful past) (hentry : entry ∈ past) :
    ∃ before, entry :: before <:+ past ∧ Lawful before ∧ entry.Law before := by
  induction past with
  | nil => cases hentry
  | cons first rest ih =>
      rcases List.mem_cons.mp hentry with rfl | hrest
      · exact ⟨rest, List.suffix_rfl, h.2, h.1⟩
      · obtain ⟨before, hsuffix, hlaw⟩ := ih h.2 hrest
        exact ⟨before, hsuffix.trans (List.suffix_cons first rest), hlaw⟩

/-- The law of the latest entry. -/
lemma last (h : Lawful past) (hentry : Last past entry) :
    ∃ before, past = entry :: before ∧ Lawful before ∧ entry.Law before := by
  cases past with
  | nil => cases hentry
  | cons first rest =>
      obtain rfl : first = entry := last_cons.mp hentry
      exact ⟨rest, rfl, h.2, h.1⟩

/-! ## Every value has its origin -/

lemma stems_of_put (h : Lawful past) (hput : .put cell name v ∈ past) : v.Stems past := by
  obtain ⟨before, hsuffix, _, hlaw⟩ := h.law hput
  exact Value.Stems.mono ((List.suffix_cons _ _).trans hsuffix) hlaw

lemma stems_of_gave {e : Expr Depth} (h : Lawful past) (hgave : .gave e v ∈ past) : v.Stems past := by
  obtain ⟨before, hsuffix, _, hlaw⟩ := h.law hgave
  exact hlaw.1.mono ((List.suffix_cons _ _).trans hsuffix)

lemma stems_of_given (h : Lawful past) (hv : v.Given past) : v.Stems past :=
  hv.elim fun _ => h.stems_of_gave

lemma stems_of_got (h : Lawful past) (hgot : .got cell name v ∈ past) : v.Stems past := by
  obtain ⟨before, hsuffix, hbefore, hlaw⟩ := h.law hgot
  exact (hbefore.stems_of_put (mem_of_latest hlaw)).mono ((List.suffix_cons _ _).trans hsuffix)

lemma stems_of_ran {s : Stmt Depth} (h : Lawful past) (hran : .ran s (.returned v) ∈ past) :
    v.Stems past := by
  obtain ⟨before, hsuffix, _, hlaw⟩ := h.law hran
  exact hlaw.1.mono ((List.suffix_cons _ _).trans hsuffix)

lemma stems_of_left {c : Closure} (h : Lawful past) (hleft : .left c v ∈ past) : v.Stems past := by
  obtain ⟨before, hsuffix, hbefore, hlaw⟩ := h.law hleft
  refine Value.Stems.mono ((List.suffix_cons _ _).trans hsuffix) ?_
  change c.Leaves before v at hlaw
  unfold Closure.Leaves at hlaw
  split at hlaw
  · obtain ⟨cell, hgot⟩ := hlaw
    exact hbefore.stems_of_got hgot.mem
  · rcases hlaw with rfl | ⟨s, hran⟩
    · exact Value.stems_scalar _
    · exact hbefore.stems_of_ran hran.mem

lemma stems_of_came {since : Nat} {callee : Value} (h : Lawful past)
    (hcame : .came since callee v ∈ past) : v.Stems past := by
  obtain ⟨before, hsuffix, hbefore, _, hanswers⟩ := h.law hcame
  refine Value.Stems.mono ((List.suffix_cons _ _).trans hsuffix) ?_
  cases callee with
  | native n => exact .inl hanswers
  | routine c => exact hbefore.stems_of_left (Last.mem hanswers)
  | classValue cls => exact .inr ⟨_, mem_iff_nth.mpr ⟨_, hanswers⟩⟩
  | _ => exact hanswers.elim

/-- What a value contains has its origin too. -/
lemma stems_of_contains {part : Value} (h : Lawful past) (hv : v.Stems past) (hpart : v.Contains part) :
    part.Stems past := by
  rcases hv with ⟨literal, rfl⟩ | ⟨origin, hmade⟩
  · exact hpart.elim
  · obtain ⟨before, hsuffix, _, hlaw⟩ := h.law hmade
    exact (hlaw.2.2 part hpart).mono ((List.suffix_cons _ _).trans hsuffix)

lemma stems_of_tells (h : Lawful past) (hentry : entry ∈ past) (hv : entry.Tells v) :
    v.Stems past := by
  obtain ⟨before, hsuffix, hbefore, hlaw⟩ := h.law hentry
  have hbelow : before <:+ past := (List.suffix_cons _ _).trans hsuffix
  cases entry with
  | made origin w => exact .inr ⟨origin, hv ▸ hentry⟩
  | put cell name w => exact h.stems_of_put (hv ▸ hentry)
  | got cell name w => exact h.stems_of_got (hv ▸ hentry)
  | called callee args =>
      refine (hbefore.stems_of_given ?_).mono hbelow
      exact List.forall_mem_cons.mpr hlaw v hv
  | came since callee w => exact h.stems_of_came (hv ▸ hentry)
  | entered c args =>
      rcases List.mem_cons.mp hv with rfl | hargs
      · exact hlaw.1.mono hbelow
      · exact (hbefore.stems_of_given (hlaw.2.1 v hargs)).mono hbelow
  | left c w => exact h.stems_of_left (hv ▸ hentry)
  | gave e w => exact h.stems_of_gave (hv ▸ hentry)
  | ran s completion => exact h.stems_of_ran (hv ▸ hentry)

/-- **Every value of a lawful chronicle has its origin.** -/
theorem stems (h : Lawful past) (hv : v.Seen past) : v.Stems past := by
  induction hv with
  | told hentry htells => exact h.stems_of_tells hentry htells
  | held _ hcontains ih => exact h.stems_of_contains ih hcontains

end Chronicle.Lawful

end KScript

import KScript.Proofs.Grammar.Parts
import KScript.Proofs.Parser.Placed
import KScript.Proofs.Scope.Settled

/-!
# What comes before a place

A program read from its first line to its last is a sequence of events: a scope opens or closes, a name
is declared or becomes ready, a name is used.  Whether a name that is used has a declaration `d` scopes
out is a question about the events before the place alone: is there a declaration of the name such that
what was read since then has opened `d` scopes more than it has closed, and has never closed the scope
of the declaration itself (`DeclaredAt`)?  Contexts and tables of names do not occur in it.

`Scopes.readAll_events` is the other reading of the events, as steps of the stack of scopes: whatever
opens inside a statement is closed at its end, and only the names that the statement itself declares
stay.
-/

namespace KScript

open Scope

/-- What a reader of a program meets. -/
inductive Event where
  | enter
  | leave
  | declare (name : String)
  /-- The value of a declared name is ready. -/
  | define (name : String)
  | use (site : Site) (name : Token)

/-! ## The events of a program -/

mutual

/-- The names that an expression uses, in the order in which they are resolved. -/
def Expr.mentions : Expr Unit → List (Site × Token)
  | .literal _ => []
  | .array items => Expr.mentionsAll items
  | .grouping inner => inner.mentions
  | .unary _ operand => operand.mentions
  | .binary left _ right => left.mentions ++ right.mentions
  | .logical left _ right => left.mentions ++ right.mentions
  | .conditional condition yes no => condition.mentions ++ yes.mentions ++ no.mentions
  | .variable ref => [(.reading, ref.name)]
  | .assign ref value => value.mentions ++ [(.assign, ref.name)]
  | .step direction ref => [(.stepExpr direction, ref.name)]
  | .call callee _ args => callee.mentions ++ Expr.mentionsAll args
  | .get object _ _ => object.mentions
  | .set object _ value _ => value.mentions ++ object.mentions
  | .receiver ref => [(.receiver, ref.name)]
  | .inherited ref _ => [(.inherited, ref.name)]

/-- The names that expressions use, in order. -/
def Expr.mentionsAll : List (Expr Unit) → List (Site × Token)
  | [] => []
  | e :: rest => e.mentions ++ Expr.mentionsAll rest

end

/-- An expression opens no scope and declares nothing. -/
def Expr.events (e : Expr Unit) : List Event := e.mentions.map fun m => .use m.1 m.2

/-- The events of an expression that may be left out. -/
def Expr.eventsOption : Option (Expr Unit) → List Event
  | none => []
  | some e => e.events

namespace Event

/-- A name that is ready as soon as it is declared. -/
def bind (name : String) : List Event := [.declare name, .define name]

/-- A variable: its name comes before its initial value. -/
def var (name : Token) (value : Option (Expr Unit)) : List Event :=
  .declare name.lexeme :: Expr.eventsOption value ++ [.define name.lexeme]

/-- What stands in a scope of its own. -/
def within (events : List Event) : List Event := .enter :: events ++ [.leave]

/-- What stands in a scope of its own in which one name is ready from the start. -/
def withinWith (name : String) (events : List Event) : List Event := within (bind name ++ events)

end Event

/-- The events of the first clause of a `for` loop. -/
def ForStart.events : Option (ForStart Unit) → List Event
  | none => []
  | some (.var name value) => Event.var name value
  | some (.expr e) => e.events

mutual

/-- The events of a statement. -/
def Stmt.events : Stmt Unit → List Event
  | .expr e => e.events
  | .echo e => e.events
  | .var name value => Event.var name value
  | .block body => Event.within (Stmt.eventsAll body)
  | .exit _ code => code.events
  | .branch condition yes no => condition.events ++ yes.events ++ Stmt.eventsOption no
  | .loop condition body => condition.events ++ body.events
  | .forLoop start condition after body =>
    Event.within (ForStart.events start ++ condition.events ++ Expr.eventsOption after
      ++ body.events)
  | .step direction ref => [.use (.stepStmt direction) ref.name]
  | .jump _ _ => []
  | .routine ⟨name, params, body⟩ =>
    Event.bind name.lexeme
      ++ Event.within (params.flatMap (fun p => Event.bind p.lexeme) ++ Stmt.eventsAll body)
  | .giveBack _ value => Expr.eventsOption value
  | .classDecl name none methods statics getters setters =>
    Event.bind name.lexeme
      ++ Event.withinWith thisName (Stmt.eventsRoutines methods ++ Stmt.eventsRoutines getters
        ++ Stmt.eventsRoutines setters)
      ++ Stmt.eventsRoutines statics
  | .classDecl name (some superclass) methods statics getters setters =>
    Event.bind name.lexeme ++ [.use .reading superclass.name]
      ++ Event.withinWith superName
        (Event.withinWith thisName (Stmt.eventsRoutines methods ++ Stmt.eventsRoutines getters
          ++ Stmt.eventsRoutines setters)
        ++ Stmt.eventsRoutines statics)

/-- The events of statements, one after the other. -/
def Stmt.eventsAll : List (Stmt Unit) → List Event
  | [] => []
  | s :: rest => s.events ++ Stmt.eventsAll rest

/-- The events of a statement that may be left out. -/
def Stmt.eventsOption : Option (Stmt Unit) → List Event
  | none => []
  | some s => s.events

/-- The events of routines of a class, each in a scope of its own. -/
def Stmt.eventsRoutines : List (Routine (Stmt Unit)) → List Event
  | [] => []
  | ⟨_, params, body⟩ :: rest =>
    Event.within (params.flatMap (fun p => Event.bind p.lexeme) ++ Stmt.eventsAll body)
      ++ Stmt.eventsRoutines rest

end

/-- The events of a program. -/
def Program.events (program : Program Unit) : List Event := Stmt.eventsAll program

/-- The names that a statement itself declares. -/
def Stmt.declares : Stmt Unit → List Token
  | .var name _ => [name]
  | .routine decl => [decl.name]
  | .classDecl name _ _ _ _ _ => [name]
  | _ => []

/-! ## Distances -/

namespace Event

/-- How many scopes are open after an event; `none` where the scope that was open first is closed. -/
def level (open_ : Nat) : Event → Option Nat
  | .enter => some (open_ + 1)
  | .leave => match open_ with
    | 0 => none
    | n + 1 => some n
  | _ => some open_

/-- How many scopes the events leave open, if they never close more than they have opened. -/
def levels (events : List Event) : Option Nat := events.foldlM level 0

/-- After these events a declaration of the name stands `d` scopes out.  The top level of a program is
no scope. -/
def DeclaredAt (events : List Event) (d : Nat) (name : String) : Prop :=
  ∃ outer inner, events = outer ++ .declare name :: inner ∧ levels inner = some d
    ∧ ∃ n, levels outer = some (n + 1)

end Event

/-- A place at which a name is used. -/
structure Lookup where
  /-- What comes before the place. -/
  before : List Event
  site : Site
  name : Token

/-- The places in events that come after others. -/
def Event.lookups (before : List Event) : List Event → List Lookup
  | [] => []
  | .use site name :: rest =>
    ⟨before, site, name⟩ :: Event.lookups (before ++ [.use site name]) rest
  | event :: rest => Event.lookups (before ++ [event]) rest

/-- The places of a program at which names are used. -/
def Program.lookups (program : Program Unit) : List Lookup := Event.lookups [] program.events

/-- The nearest scope with a declaration of the name before the place is `d` scopes out. -/
def Lookup.Nearest (u : Lookup) (d : Nat) : Prop :=
  Event.DeclaredAt u.before d u.name.lexeme
    ∧ ∀ d' < d, ¬Event.DeclaredAt u.before d' u.name.lexeme

/-! ## Reading the events -/

namespace Scopes

/-- One event as a step of the scopes. -/
def read (scopes : Scopes) : Event → Scopes
  | .enter => scopes.enter
  | .leave => scopes.tail
  | .declare name => scopes.declare name
  | .define name => scopes.define name
  | .use _ _ => scopes

/-- The scopes after events. -/
def readAll (scopes : Scopes) (events : List Event) : Scopes := events.foldl read scopes

variable {scopes : Scopes}

@[simp] lemma readAll_nil : scopes.readAll [] = scopes := rfl

@[simp] lemma readAll_cons (event : Event) (events : List Event) :
    scopes.readAll (event :: events) = (scopes.read event).readAll events := rfl

@[simp] lemma readAll_append (events later : List Event) :
    scopes.readAll (events ++ later) = (scopes.readAll events).readAll later :=
  List.foldl_append

@[simp] lemma tail_declare (name : String) : (scopes.declare name).tail = scopes.tail := by
  cases scopes <;> rfl

@[simp] lemma tail_define (name : String) : (scopes.define name).tail = scopes.tail := by
  cases scopes <;> rfl

@[simp] lemma length_declare (name : String) : (scopes.declare name).length = scopes.length := by
  cases scopes <;> rfl

@[simp] lemma length_define (name : String) : (scopes.define name).length = scopes.length := by
  cases scopes <;> rfl

@[simp] lemma defineAll_nil : scopes.defineAll [] = scopes := rfl

@[simp] lemma defineAll_names_cons (name : Token) (names : List Token) :
    scopes.defineAll (name :: names)
      = ((scopes.declare name.lexeme).define name.lexeme).defineAll names := rfl

@[simp] lemma defineAll_append (names more : List Token) :
    scopes.defineAll (names ++ more) = (scopes.defineAll names).defineAll more :=
  List.foldl_append

@[simp] lemma tail_defineAll (names : List Token) :
    (scopes.defineAll names).tail = scopes.tail := by
  induction names generalizing scopes with
  | nil => rfl
  | cons name rest ih => simp [ih]

@[simp] lemma length_defineAll (names : List Token) :
    (scopes.defineAll names).length = scopes.length := by
  induction names generalizing scopes with
  | nil => rfl
  | cons name rest ih => simp [ih]

/-- What a name means in the scopes. -/
def entry (scopes : Scopes) (d : Nat) (name : String) : Option Bool :=
  scopes[d]?.bind (·.find? name)

lemma entry_define (name key : String) (d : Nat) (h : key ≠ name) :
    ((scopes.declare name).define name).entry d key = scopes.entry d key := by
  rcases scopes with _ | ⟨inner, outer⟩
  · rfl
  · cases d with
    | zero =>
        simp only [entry, declare, define, List.getElem?_cons_zero, Option.bind_some,
          Table.find?_insert, if_neg (Ne.symm h)]
        split <;> simp [Table.find?_insert, Ne.symm h]
    | succ d => rfl

lemma entry_defineAll {names : List Token} {key : String} (d : Nat)
    (h : ∀ p ∈ names, key ≠ p.lexeme) : (scopes.defineAll names).entry d key = scopes.entry d key := by
  induction names generalizing scopes with
  | nil => rfl
  | cons name rest ih =>
      rw [List.forall_mem_cons] at h
      rw [defineAll_names_cons, ih h.2, entry_define _ _ _ h.1]

end Scopes

lemma Scope.Context.scopes_after (c : Context) (s : Stmt Unit) :
    (c.after s).scopes = c.scopes.defineAll s.declares := by
  cases s <;> rfl

lemma Stmt.declares_of_not_isDeclaration {s : Stmt Unit} (h : s.isDeclaration = false) :
    s.declares = [] := by
  cases s <;> first | rfl | cases h

section

variable {scopes : Scopes}

@[simp] lemma Expr.readAll_events (e : Expr Unit) : scopes.readAll e.events = scopes := by
  unfold Expr.events
  induction e.mentions with
  | nil => rfl
  | cons m rest ih => simpa [Scopes.read] using ih

@[simp] lemma Expr.readAll_eventsOption (e : Option (Expr Unit)) :
    scopes.readAll (Expr.eventsOption e) = scopes := by
  cases e with
  | none => rfl
  | some e => exact e.readAll_events

@[simp] lemma Event.readAll_bind (name : String) :
    scopes.readAll (Event.bind name) = (scopes.declare name).define name := rfl

@[simp] lemma Event.readAll_var (name : Token) (value : Option (Expr Unit)) :
    scopes.readAll (Event.var name value) = scopes.defineAll [name] := by
  simp [Event.var, Scopes.read]

@[simp] lemma Event.readAll_params (params : List Token) :
    scopes.readAll (params.flatMap fun p => Event.bind p.lexeme) = scopes.defineAll params := by
  induction params generalizing scopes with
  | nil => rfl
  | cons p rest ih => simp [ih]

/-- Events in a scope of their own leave nothing, if they only declare in that scope. -/
lemma Event.readAll_within {events : List Event}
    (h : (scopes.enter.readAll events).tail = scopes.enter.tail) :
    scopes.readAll (Event.within events) = scopes := by
  simp only [Event.within, List.cons_append, Scopes.readAll_cons, Scopes.readAll_append,
    Scopes.readAll_nil, Scopes.read, h]
  rfl

lemma ForStart.readAll_events (start : Option (ForStart Unit)) :
    (scopes.readAll (ForStart.events start)).tail = scopes.tail := by
  rcases start with _ | ⟨name, value⟩ | e
  · rfl
  · simp [ForStart.events]
  · simp [ForStart.events]

mutual

/-- **A statement leaves the scopes as it found them, except for the names that it declares.** -/
theorem Stmt.readAll_events : ∀ {s : Stmt Unit} {scopes : Scopes}, s.Placed →
    scopes.readAll s.events = scopes.defineAll s.declares
  | .expr e, _, _ => e.readAll_events
  | .echo e, _, _ => e.readAll_events
  | .var name value, _, _ => Event.readAll_var name value
  | .block body, scopes, h => by
      have hbody : scopes.enter.readAll (Stmt.eventsAll body) = _ := Stmt.readAll_eventsAll h
      exact Event.readAll_within (by simp [hbody])
  | .exit _ code, _, _ => code.readAll_events
  | .branch condition yes no, _, ⟨hdecl, hyes, hno⟩ => by
      change _ = Scopes.defineAll _ []
      simp [Stmt.events, Stmt.readAll_events hyes, Stmt.declares_of_not_isDeclaration hdecl,
        Stmt.readAll_eventsOption hno]
  | .loop condition body, _, ⟨hdecl, hbody⟩ => by
      change _ = Scopes.defineAll _ []
      simp [Stmt.events, Stmt.readAll_events hbody, Stmt.declares_of_not_isDeclaration hdecl]
  | .forLoop start condition after body, _, ⟨hdecl, hbody⟩ => by
      refine Event.readAll_within ?_
      simp [Stmt.readAll_events hbody, Stmt.declares_of_not_isDeclaration hdecl,
        ForStart.readAll_events]
  | .step _ _, _, _ => rfl
  | .jump _ _, _, _ => rfl
  | .routine ⟨name, params, body⟩, _, h => by
      have hbody (scopes : Scopes) : scopes.readAll (Stmt.eventsAll body) = _ :=
        Stmt.readAll_eventsAll h
      rw [Stmt.events, Scopes.readAll_append, Event.readAll_within (by simp [hbody])]
      rfl
  | .giveBack _ value, _, _ => Expr.readAll_eventsOption value
  | .classDecl name superclass methods statics getters setters, _, ⟨hm, hs, hg, ht⟩ => by
      have hmethods (scopes : Scopes) : scopes.readAll (Stmt.eventsRoutines methods) = scopes :=
        Stmt.readAll_eventsRoutines hm
      have hstatics (scopes : Scopes) : scopes.readAll (Stmt.eventsRoutines statics) = scopes :=
        Stmt.readAll_eventsRoutines hs
      have hgetters (scopes : Scopes) : scopes.readAll (Stmt.eventsRoutines getters) = scopes :=
        Stmt.readAll_eventsRoutines hg
      have hsetters (scopes : Scopes) : scopes.readAll (Stmt.eventsRoutines setters) = scopes :=
        Stmt.readAll_eventsRoutines ht
      -- the scope of the receiver, whether or not it is inside the one of a superclass
      have hreceiver (scopes : Scopes) : scopes.readAll (Event.withinWith thisName
          (Stmt.eventsRoutines methods ++ Stmt.eventsRoutines getters
            ++ Stmt.eventsRoutines setters)) = scopes :=
        Event.readAll_within (by simp [hmethods, hgetters, hsetters])
      cases superclass with
      | none =>
          rw [Stmt.events, Scopes.readAll_append, Scopes.readAll_append, hreceiver, hstatics]
          rfl
      | some superclass =>
          rw [Stmt.events, Scopes.readAll_append, Event.withinWith, Event.readAll_within]
          · rfl
          · rw [Scopes.readAll_append, Scopes.readAll_append, hreceiver, hstatics]
            simp

theorem Stmt.readAll_eventsAll : ∀ {ss : List (Stmt Unit)} {scopes : Scopes}, Stmt.PlacedAll ss →
    scopes.readAll (Stmt.eventsAll ss) = scopes.defineAll (ss.flatMap Stmt.declares)
  | [], _, _ => rfl
  | s :: rest, _, ⟨hs, hrest⟩ => by
      simp [Stmt.eventsAll, Stmt.readAll_events hs, Stmt.readAll_eventsAll hrest]

theorem Stmt.readAll_eventsOption : ∀ {s : Option (Stmt Unit)} {scopes : Scopes},
    Stmt.PlacedOption s → scopes.readAll (Stmt.eventsOption s) = scopes
  | none, _, _ => rfl
  | some s, _, ⟨hdecl, hs⟩ => by
      rw [Stmt.eventsOption, Stmt.readAll_events hs, Stmt.declares_of_not_isDeclaration hdecl]
      rfl

theorem Stmt.readAll_eventsRoutines : ∀ {rs : List (Routine (Stmt Unit))} {scopes : Scopes},
    Stmt.PlacedRoutines rs → scopes.readAll (Stmt.eventsRoutines rs) = scopes
  | [], _, _ => rfl
  | ⟨_, params, body⟩ :: rest, _, ⟨hbody, hrest⟩ => by
      have hreads (scopes : Scopes) : scopes.readAll (Stmt.eventsAll body) = _ :=
        Stmt.readAll_eventsAll hbody
      rw [Stmt.eventsRoutines, Scopes.readAll_append, Event.readAll_within (by simp [hreads])]
      exact Stmt.readAll_eventsRoutines hrest

end

end

end KScript

import KScript.Proofs.Scope.Order
import KScript.Proofs.Scope.Uses

/-!
# Depths are lexical scoping

The depth that the resolver records for a use of a name is the distance of the nearest scope with a
declaration of that name before the use (`Parsed.bindings_nearest`).

The argument walks between the stack of scopes and the events that led to it.  `Describes` says that
the stack has exactly the names that the events declare at each distance; `Reads` says that a piece of
a program keeps it so, and that each use in the piece meets a stack that its own past describes.
-/

namespace KScript

open Scope

/-! ## Distances, one event at a time -/

namespace Event

lemma levels_concat (events : List Event) (event : Event) :
    levels (events ++ [event]) = (levels events).bind (level · event) := by
  simp [levels, List.foldlM_append]

/-- What an event does to the distances: it may declare the name itself, and it moves all else. -/
lemma declaredAt_concat {events : List Event} {event : Event} {d : Nat} {name : String} :
    DeclaredAt (events ++ [event]) d name ↔
      (event = .declare name ∧ d = 0 ∧ ∃ n, levels events = some (n + 1))
        ∨ ∃ before, level before event = some d ∧ DeclaredAt events before name := by
  constructor
  · rintro ⟨outer, inner, hsplit, hinner, n, houter⟩
    rcases List.eq_nil_or_concat inner with rfl | ⟨front, last, rfl⟩
    · obtain ⟨rfl, hlast⟩ := List.append_inj' hsplit rfl
      left
      exact ⟨by simpa using hlast, by simpa [levels] using hinner.symm, n, houter⟩
    · right
      have hsplit' : events ++ [event] = (outer ++ .declare name :: front) ++ [last] := by
        simpa using hsplit
      obtain ⟨rfl, hlast⟩ := List.append_inj' hsplit' rfl
      obtain rfl : event = last := by simpa using hlast
      rw [List.concat_eq_append, levels_concat, Option.bind_eq_some_iff] at hinner
      obtain ⟨before, hfront, hlevel⟩ := hinner
      exact ⟨before, hlevel, outer, front, rfl, hfront, n, houter⟩
  · rintro (⟨rfl, rfl, hopen⟩ | ⟨before, hlevel, outer, inner, rfl, hinner, hopen⟩)
    · exact ⟨events, [], rfl, rfl, hopen⟩
    · refine ⟨outer, inner ++ [event], by simp, ?_, hopen⟩
      rw [levels_concat, hinner]
      exact hlevel

end Event

/-! ## Stacks that are described by what was read -/

/-- The stack has exactly the scopes that are open after the events, with exactly the names that are
declared in them. -/
structure Scopes.Describes (events : List Event) (scopes : Scopes) : Prop where
  levels : Event.levels events = some scopes.length
  declared : ∀ d name, (∃ scope, scopes[d]? = some scope ∧ scope.contains name = true)
    ↔ Event.DeclaredAt events d name

namespace Scopes.Describes

variable {events : List Event} {scopes outer : Scopes} {scope : Scope}

lemma nil : Describes [] [] where
  levels := rfl
  declared d name := by simp [Event.DeclaredAt]

/-- Only the names of the innermost scope count, not how they are kept. -/
lemma congr (h : Describes events (scope :: outer)) {scope' : Scope}
    (hnames : ∀ name, scope'.contains name = scope.contains name) :
    Describes events (scope' :: outer) where
  levels := h.levels
  declared d name := by
    rw [← h.declared]
    cases d with
    | zero => simp [hnames]
    | succ d => rfl

lemma enter (h : Describes events scopes) : Describes (events ++ [.enter]) scopes.enter where
  levels := by simp [Event.levels_concat, h.levels, Event.level, Scopes.enter]
  declared d name := by
    rw [Event.declaredAt_concat]
    cases d with
    | zero => simp [Scopes.enter, Event.level, Table.contains]
    | succ d => simpa [Scopes.enter, Event.level] using h.declared d name

lemma leave (h : Describes events (scope :: outer)) : Describes (events ++ [.leave]) outer where
  levels := by simp [Event.levels_concat, h.levels, Event.level]
  declared d name := by
    have hlevel (before : Nat) : Event.level before .leave = some d ↔ before = d + 1 := by
      cases before <;> simp [Event.level]
    simp [Event.declaredAt_concat, hlevel, ← h.declared]

lemma use (h : Describes events scopes) (site : Site) (name : Token) :
    Describes (events ++ [.use site name]) scopes where
  levels := by simp [Event.levels_concat, h.levels, Event.level]
  declared d key := by simp [Event.declaredAt_concat, Event.level, h.declared]

lemma declare (h : Describes events scopes) (name : String) :
    Describes (events ++ [.declare name]) (scopes.declare name) where
  levels := by simp [Event.levels_concat, h.levels, Event.level]
  declared d key := by
    have hopen : (∃ n, Event.levels events = some (n + 1)) ↔ scopes ≠ [] := by
      rw [h.levels]
      cases scopes <;> simp
    have hkept := h.declared d key
    rw [Event.declaredAt_concat, hopen]
    rcases scopes with _ | ⟨inner, outer⟩
    · simpa [Scopes.declare, Event.level] using hkept
    · cases d with
      | zero =>
          by_cases hname : inner.contains name = true <;> by_cases hkey : name = key <;>
            simp_all [Scopes.declare, Event.level, Table.contains_insert]
      | succ d => simpa [Scopes.declare, Event.level] using hkept

lemma define (h : Describes events scopes) {name : String} (hname : scopes ≠ [] → scopes.declares name) :
    Describes (events ++ [.define name]) (scopes.define name) := by
  have hread : Describes (events ++ [.define name]) scopes :=
    { levels := by simp [Event.levels_concat, h.levels, Event.level]
      declared := fun d key => by simp [Event.declaredAt_concat, Event.level, h.declared] }
  rcases scopes with _ | ⟨inner, outer⟩
  · exact hread
  · refine hread.congr fun key => ?_
    have hinner : inner.contains name = true := hname (by simp)
    rw [Table.contains_insert]
    by_cases hkey : name = key
    · simp [← hkey, hinner]
    · simp [hkey]

/-- The depth of a name is the distance of its nearest declaration. -/
lemma depth_eq_some_iff (h : Describes events scopes) {name : String} {d : Nat} :
    scopes.depth name = some d ↔
      Event.DeclaredAt events d name ∧ ∀ d' < d, ¬Event.DeclaredAt events d' name := by
  rw [Scopes.depth, List.findIdx?_eq_some_iff_getElem]
  simp only [← h.declared]
  constructor
  · rintro ⟨hd, hfound, hbefore⟩
    refine ⟨⟨_, List.getElem?_eq_getElem hd, hfound⟩, ?_⟩
    rintro d' hd' ⟨scope, hscope, hcontains⟩
    obtain ⟨hlt, rfl⟩ := List.getElem?_eq_some_iff.mp hscope
    exact hbefore d' hd' hcontains
  · rintro ⟨⟨scope, hscope, hcontains⟩, hbefore⟩
    obtain ⟨hd, rfl⟩ := List.getElem?_eq_some_iff.mp hscope
    refine ⟨hd, hcontains, fun d' hd' hfound => ?_⟩
    exact hbefore d' hd' ⟨_, List.getElem?_eq_getElem (by omega), hfound⟩

end Scopes.Describes

/-! ## Pieces of a program -/

lemma Event.lookups_append (before events later : List Event) :
    Event.lookups before (events ++ later)
      = Event.lookups before events ++ Event.lookups (before ++ events) later := by
  induction events generalizing before with
  | nil => simp [Event.lookups]
  | cons event rest ih => cases event <;> simp [Event.lookups, ih]

/-- The use is the one that is met at this place, and its stack is described by what came before. -/
structure Lookup.Meets (p : Lookup) (u : Use) : Prop where
  site : u.site = p.site
  name : u.name = p.name
  scopes : u.context.scopes.Describes p.before

/-- A piece of a program, with the uses in it, takes one stack to another. -/
def Reads (events : List Event) (uses : List Use) (scopes next : Scopes) : Prop :=
  ∀ before, scopes.Describes before →
    List.Forall₂ Lookup.Meets (Event.lookups before events) uses
      ∧ next.Describes (before ++ events)

namespace Reads

variable {events later : List Event} {uses more : List Use} {scopes next last : Scopes}

lemma nil : Reads [] [] scopes scopes := fun before h => ⟨.nil, by simpa using h⟩

lemma append (h : Reads events uses scopes next) (h' : Reads later more next last) :
    Reads (events ++ later) (uses ++ more) scopes last := by
  intro before hscopes
  obtain ⟨hmeets, hnext⟩ := h before hscopes
  obtain ⟨hmeets', hlast⟩ := h' _ hnext
  rw [Event.lookups_append, ← List.append_assoc]
  exact ⟨List.rel_append hmeets hmeets', hlast⟩

lemma enter : Reads [.enter] [] scopes scopes.enter := fun _ h => ⟨.nil, h.enter⟩

lemma leave (h : scopes ≠ []) : Reads [.leave] [] scopes scopes.tail := by
  intro before hscopes
  cases scopes with
  | nil => exact absurd rfl h
  | cons scope outer => exact ⟨.nil, hscopes.leave⟩

lemma declare (name : String) : Reads [.declare name] [] scopes (scopes.declare name) :=
  fun _ h => ⟨.nil, h.declare name⟩

lemma define {name : String} (hname : scopes ≠ [] → scopes.declares name) :
    Reads [.define name] [] scopes (scopes.define name) := fun _ h => ⟨.nil, h.define hname⟩

lemma use (c : Context) (site : Site) (name : Token) :
    Reads [.use site name] [⟨c, site, name⟩] c.scopes c.scopes :=
  fun _ h => ⟨.cons ⟨rfl, rfl, h⟩ .nil, h.use site name⟩

/-- A name is declared once it has been declared. -/
lemma define_declare (name : String) :
    Reads [.define name] [] (scopes.declare name) ((scopes.declare name).define name) := by
  refine define fun _ => ?_
  rcases scopes with _ | ⟨inner, outer⟩
  · contradiction
  · change (if inner.contains name then inner else inner.insert name false).contains name = true
    split
    · assumption
    · simp [Table.contains_insert]

lemma bind (name : String) :
    Reads (Event.bind name) [] scopes ((scopes.declare name).define name) :=
  (declare name).append (define_declare name)

/-- The scope with one name is an empty one in which the name is bound. -/
lemma enterWith (name : String) :
    Reads (.enter :: Event.bind name) [] scopes (scopes.enterWith name) := by
  intro before hscopes
  obtain ⟨-, hbound⟩ := (enter.append (bind name)) before hscopes
  refine ⟨.nil, hbound.congr fun key => ?_⟩
  simp [Table.singleton, Table.contains, Table.find?, Table.lookup,
    Table.empty, Table.insert, Table.bind]

lemma params (names : List Token) :
    Reads (names.flatMap fun p => Event.bind p.lexeme) [] scopes (scopes.defineAll names) := by
  induction names generalizing scopes with
  | nil => exact nil
  | cons name rest ih => exact (bind name.lexeme).append ih

/-- What stands in a scope of its own, when it only declares in that scope. -/
lemma within (h : Reads events uses scopes.enter next) (hnext : next.tail = scopes)
    (hopen : next ≠ []) : Reads (Event.within events) uses scopes scopes := by
  have hreads := (enter.append h).append (leave hopen)
  rwa [List.nil_append, List.append_nil, hnext] at hreads

/-- The same in a scope with one name. -/
lemma withinWith {name : String}
    (h : Reads events uses (scopes.enterWith name) (scopes.enterWith name)) :
    Reads (Event.withinWith name events) uses scopes scopes := by
  have hreads := ((enterWith name).append h).append (leave (List.cons_ne_nil _ _))
  rwa [List.nil_append, List.append_nil] at hreads

end Reads

/-! ## Expressions -/

mutual

lemma Expr.uses_eq (c : Context) : ∀ e : Expr Unit,
    e.uses c = e.mentions.map fun m => ⟨c, m.1, m.2⟩
  | .literal _ => rfl
  | .array items => Expr.usesAll_eq c items
  | .grouping inner => Expr.uses_eq c inner
  | .unary _ operand => Expr.uses_eq c operand
  | .binary left _ right | .logical left _ right => by
      simp [Expr.uses, Expr.mentions, Expr.uses_eq c left, Expr.uses_eq c right]
  | .conditional condition yes no => by
      simp [Expr.uses, Expr.mentions, Expr.uses_eq c condition, Expr.uses_eq c yes,
        Expr.uses_eq c no]
  | .variable _ => rfl
  | .assign _ value => by simp [Expr.uses, Expr.mentions, Expr.uses_eq c value]
  | .step _ _ => rfl
  | .call callee _ args => by
      simp [Expr.uses, Expr.mentions, Expr.uses_eq c callee, Expr.usesAll_eq c args]
  | .get object _ _ => Expr.uses_eq c object
  | .set object _ value _ => by
      simp [Expr.uses, Expr.mentions, Expr.uses_eq c object, Expr.uses_eq c value]
  | .receiver _ => rfl
  | .inherited _ _ => rfl

lemma Expr.usesAll_eq (c : Context) : ∀ es : List (Expr Unit),
    Expr.usesAll c es = (Expr.mentionsAll es).map fun m => ⟨c, m.1, m.2⟩
  | [] => rfl
  | e :: rest => by
      simp [Expr.usesAll, Expr.mentionsAll, Expr.uses_eq c e, Expr.usesAll_eq c rest]

end

lemma Expr.reads (c : Context) (e : Expr Unit) : Reads e.events (e.uses c) c.scopes c.scopes := by
  rw [Expr.events, Expr.uses_eq]
  induction e.mentions with
  | nil => exact .nil
  | cons m rest ih => exact (Reads.use c m.1 m.2).append ih

lemma Expr.readsOption (c : Context) (e : Option (Expr Unit)) :
    Reads (Expr.eventsOption e) (Expr.usesOption c e) c.scopes c.scopes := by
  cases e with
  | none => exact .nil
  | some e => exact e.reads c

lemma Scope.Context.reads_var (c : Context) (name : Token) (value : Option (Expr Unit)) :
    Reads (Event.var name value) (Expr.usesOption (c.declare name) value) c.scopes
      (c.bind name).scopes := by
  have hreads := ((Reads.declare name.lexeme).append
    (Expr.readsOption (c.declare name) value)).append (Reads.define_declare name.lexeme)
  rwa [List.nil_append, List.append_nil] at hreads

lemma ForStart.reads (c : Context) (start : Option (ForStart Unit)) :
    Reads (ForStart.events start) (ForStart.uses c start) c.scopes (c.afterStart start).scopes := by
  rcases start with _ | ⟨name, value⟩ | e
  · exact .nil
  · exact c.reads_var name value
  · exact e.reads c

/-! ## Statements -/

lemma Scope.Context.after_of_not_isDeclaration {c : Context} {s : Stmt Unit}
    (h : s.isDeclaration = false) : c.after s = c := by
  cases s <;> first | rfl | cases h

/-- Where statements are listed, each starts with the scopes that the ones before it left. -/
def Scope.Context.afterAll (c : Context) (ss : List (Stmt Unit)) : Context := ss.foldl after c

lemma Scope.Context.scopes_afterAll (c : Context) (ss : List (Stmt Unit)) :
    (c.afterAll ss).scopes = c.scopes.defineAll (ss.flatMap Stmt.declares) := by
  induction ss generalizing c with
  | nil => rfl
  | cons s rest ih =>
      have hrest := ih (c.after s)
      rw [c.scopes_after s] at hrest
      simpa [afterAll] using hrest

/-- The parameters and the body of a routine share one scope. -/
lemma Reads.routine {c : Context} {kind : BodyKind} {params : List Token} {body : List (Stmt Unit)}
    {inner : Context} (hinner : inner = c.inRoutine kind params)
    (h : Reads (Stmt.eventsAll body) (Stmt.usesAll inner body) inner.scopes
      (inner.afterAll body).scopes) :
    Reads (Event.within (params.flatMap (fun p => Event.bind p.lexeme) ++ Stmt.eventsAll body))
      (Stmt.usesAll inner body) c.scopes c.scopes := by
  subst hinner
  rw [Context.scopes_afterAll] at h
  refine ((Reads.params params).append h).within ?_ ?_
  · simp [Context.inRoutine, Scopes.enter]
  · exact List.ne_nil_of_length_pos (by simp [Context.inRoutine, Scopes.enter])

mutual

/-- **A statement keeps the stack described by what was read.** -/
theorem Stmt.reads : ∀ (c : Context) {s : Stmt Unit}, s.Placed →
    Reads s.events (s.uses c) c.scopes (c.after s).scopes
  | c, .expr e, _ => e.reads c
  | c, .echo e, _ => e.reads c
  | c, .var name value, _ => c.reads_var name value
  | c, .block body, h => by
      have hbody := Stmt.readsAll c.enter h
      rw [Context.scopes_afterAll] at hbody
      exact hbody.within (by simp [Context.enter, Scopes.enter])
        (List.ne_nil_of_length_pos (by simp [Context.enter, Scopes.enter]))
  | c, .exit _ code, _ => code.reads c
  | c, .branch condition yes no, ⟨hdecl, hyes, hno⟩ => by
      have hbranch := Stmt.reads c hyes
      rw [Context.after_of_not_isDeclaration hdecl] at hbranch
      exact ((condition.reads c).append hbranch).append (Stmt.readsOption c hno)
  | c, .loop condition body, ⟨hdecl, hbody⟩ => by
      have hloop := Stmt.reads c hbody
      rw [Context.after_of_not_isDeclaration hdecl] at hloop
      exact (condition.reads c).append hloop
  | c, .forLoop start condition after body, ⟨hdecl, hbody⟩ => by
      let inner := c.enter.afterStart start
      have hloop := Stmt.reads inner hbody
      rw [Context.after_of_not_isDeclaration hdecl] at hloop
      have hparts := (((ForStart.reads c.enter start).append (condition.reads inner)).append
        (Expr.readsOption inner after)).append hloop
      have htail : inner.scopes.tail = c.scopes ∧ inner.scopes ≠ [] := by
        rcases start with _ | ⟨name, value⟩ | e
        · exact ⟨rfl, List.cons_ne_nil _ _⟩
        · exact ⟨rfl, List.cons_ne_nil _ _⟩
        · exact ⟨rfl, List.cons_ne_nil _ _⟩
      exact hparts.within htail.1 htail.2
  | c, .step _ ref, _ => Reads.use c _ ref.name
  | _, .jump _ _, _ => .nil
  | c, .routine ⟨name, params, body⟩, h =>
      (Reads.bind name.lexeme).append (Reads.routine rfl (Stmt.readsAll _ h))
  | c, .giveBack _ value, _ => Expr.readsOption c value
  | c, .classDecl name superclass methods statics getters setters, ⟨hm, hs, hg, ht⟩ => by
      have hreceiver (outer : Context) := Reads.withinWith
        (((Stmt.readsRoutines outer.withReceiver methodKind hm).append
          (Stmt.readsRoutines outer.withReceiver (fun _ => .method) hg)).append
          (Stmt.readsRoutines outer.withReceiver (fun _ => .method) ht))
      have hstatics (outer : Context) := Stmt.readsRoutines outer (fun _ => .staticMethod) hs
      cases superclass with
      | none =>
          let inner := (c.bind name).inClass (none : Option (Reference Unit))
          exact ((Reads.bind name.lexeme).append (hreceiver inner)).append (hstatics inner)
      | some superclass =>
          let inner := (c.bind name).inClass (some superclass)
          have hread := (Reads.bind name.lexeme).append
            (Reads.use (c.bind name) .reading superclass.name)
          have hreads := hread.append (Reads.withinWith ((hreceiver inner).append (hstatics inner)))
          rw [List.nil_append, ← List.append_assoc, ← List.append_assoc, ← List.append_assoc] at hreads
          exact hreads

theorem Stmt.readsAll : ∀ (c : Context) {ss : List (Stmt Unit)}, Stmt.PlacedAll ss →
    Reads (Stmt.eventsAll ss) (Stmt.usesAll c ss) c.scopes (c.afterAll ss).scopes
  | _, [], _ => .nil
  | c, s :: _, ⟨hs, hrest⟩ => (Stmt.reads c hs).append (Stmt.readsAll (c.after s) hrest)

theorem Stmt.readsOption : ∀ (c : Context) {s : Option (Stmt Unit)}, Stmt.PlacedOption s →
    Reads (Stmt.eventsOption s) (Stmt.usesOption c s) c.scopes c.scopes
  | _, none, _ => .nil
  | c, some s, ⟨hdecl, hs⟩ => by
      have hreads := Stmt.reads c hs
      rwa [Context.after_of_not_isDeclaration hdecl] at hreads

theorem Stmt.readsRoutines : ∀ (c : Context) (kind : Token → BodyKind)
    {rs : List (Routine (Stmt Unit))}, Stmt.PlacedRoutines rs →
    Reads (Stmt.eventsRoutines rs) (Stmt.usesRoutines c kind rs) c.scopes c.scopes
  | _, _, [], _ => .nil
  | c, kind, ⟨_, _, _⟩ :: _, ⟨hbody, hrest⟩ =>
      (Reads.routine rfl (Stmt.readsAll _ hbody)).append (Stmt.readsRoutines c kind hrest)

end

/-! ## Recorded depths -/

/-- What is recorded for a use of a name: at most one binding, and that of depth `d` exactly if the
nearest scope with a declaration of the name before the use is `d` scopes out.  Receivers are bound by
rules of their own. -/
structure Lookup.Records (p : Lookup) (entry : List Binding) : Prop where
  once : entry.length ≤ 1
  own : ∀ b ∈ entry, b.site = p.site ∧ b.name = p.name
  nearest : p.site ≠ .receiver → ∀ d, (∃ b ∈ entry, b.depth = d) ↔ p.Nearest d

lemma Lookup.Meets.records {p : Lookup} {u : Use} (h : p.Meets u) : p.Records u.bindings := by
  have hentry : (u.depth = none ∧ u.bindings = [])
      ∨ ∃ d, u.depth = some d ∧ u.bindings = [⟨u.site, u.name, d⟩] := by
    unfold Use.bindings Reference.binding
    cases u.depth <;> simp
  refine ⟨?_, ?_, fun hsite d => ?_⟩
  · rcases hentry with ⟨-, hb⟩ | ⟨d, -, hb⟩ <;> simp [hb]
  · rcases hentry with ⟨-, hb⟩ | ⟨d, -, hb⟩ <;> simp [hb, h.site, h.name]
  · have hdepth : u.depth = u.context.scopes.depth p.name.lexeme := by
      have hsite' := h.site
      have hname := h.name
      obtain ⟨c, site, name⟩ := u
      cases site <;> simp_all [Use.depth]
    have hnearest : u.depth = some d ↔ p.Nearest d := by
      rw [hdepth]
      exact h.scopes.depth_eq_some_iff
    rw [← hnearest]
    rcases hentry with ⟨hd, hb⟩ | ⟨d', hd, hb⟩ <;> simp [hb, hd]

/-- What a statement may do to the scopes: it declares its own names in the innermost one, and keeps
all else. -/
structure Stmt.Leaves (s : Stmt Unit) (scopes next : Scopes) : Prop where
  length : next.length = scopes.length
  outer : next.tail = scopes.tail
  kept : ∀ d name, (∀ p ∈ s.declares, name ≠ p.lexeme) → next.entry d name = scopes.entry d name
  declared : scopes ≠ [] → ∀ p ∈ s.declares, next.declares p.lexeme

lemma Stmt.leaves_defineAll (s : Stmt Unit) (scopes : Scopes) :
    s.Leaves scopes (scopes.defineAll s.declares) where
  length := by simp
  outer := by simp
  kept d _ h := Scopes.entry_defineAll d h
  declared hopen p hp := by
    rcases scopes with _ | ⟨inner, outer⟩
    · exact absurd rfl hopen
    · -- a statement declares one name at most, so the name is the last one that is defined
      have hnames : s.declares = [p] := by
        cases s <;> simp_all [Stmt.declares]
      rw [hnames]
      simp [Scopes.declare, Scopes.define, Scopes.declares, Table.contains_insert]

namespace Parsed

/-- **Recorded depths are lexical scoping, in every parsed script, malformed or not.**

- Read in order, a statement opens and closes scopes and declares names, and leaves the stack of scopes
  as it found it, except for the names that it declares itself in the innermost scope.
- The bindings of the resolved program are those of its uses of names, in order, at most one for each;
  and a use has the depth `d` exactly if the nearest scope with a declaration of its name before it is
  `d` scopes out. -/
theorem bindings_nearest (source : String) :
    let program := (Parsed.ofSource source).program
    (∀ s ∈ program.statements, ∀ c : Context,
        (c.after s).scopes = c.scopes.readAll s.events ∧ s.Leaves c.scopes (c.after s).scopes)
      ∧ ∃ entries : List (List Binding), program.resolve.bindings = entries.flatten
          ∧ List.Forall₂ Lookup.Records program.lookups entries := by
  intro program
  have hplaced : Stmt.PlacedAll program := Parsed.placed _ _ _
  constructor
  · intro s hs c
    have hparts := Stmt.hereditary_placed.statements (Stmt.placedAll_iff.mp hplaced)
    rw [Stmt.readAll_events (hparts s hs), c.scopes_after s]
    exact ⟨rfl, s.leaves_defineAll c.scopes⟩
  · refine ⟨program.uses.map Use.bindings, ?_, ?_⟩
    · rw [Program.bindings_resolve, List.flatMap_def]
    · obtain ⟨hmeets, -⟩ := Stmt.readsAll topLevel hplaced [] .nil
      exact List.forall₂_map_right_iff.mpr (hmeets.imp fun _ _ h => h.records)

/-- A name is used in a routine before it is declared in the block of the routine, and again in its own
initial value. -/
def lateScript : String :=
  "\x7b var x = true; \x7b sub f() \x7b return x; \x7d var x = x; \x7d \x7d"

theorem bindings_nearest_lateScript :
    let program := (Parsed.ofSource lateScript).program
    program.resolve.bindings.map Binding.depth = [2, 0]
      ∧ (∃ s ∈ program.statements, s.declares.map Token.lexeme = ["f"]
          ∧ ∀ c : Context, s.Leaves c.scopes (c.after s).scopes)
      ∧ ∃ entries : List (List Binding), program.resolve.bindings = entries.flatten
          ∧ List.Forall₂ Lookup.Records program.lookups entries := by
  intro program
  have hroutine : ∃ s ∈ program.statements, s.declares.map Token.lexeme = ["f"] := by
    have hfind : (program.statements.find? (·.declares.map Token.lexeme = ["f"])).isSome = true := by
      decide +kernel
    obtain ⟨s, hs, hname⟩ := List.find?_isSome.mp hfind
    exact ⟨s, hs, of_decide_eq_true hname⟩
  obtain ⟨s, hs, hname⟩ := hroutine
  have hall := bindings_nearest lateScript
  exact ⟨by decide +kernel, ⟨s, hs, hname, fun c => (hall.1 s hs c).2⟩, hall.2⟩

end Parsed

end KScript

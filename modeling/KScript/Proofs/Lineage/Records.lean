import KScript.Proofs.Code.Carried
import KScript.Proofs.Lineage.Marks

/-!
# Classes and the declarations that made them

A record tells of one execution of a class declaration: the declaration, the place and the environment in
which it was executed, the frame that it made for the superclass, and the class.  A world is what has been
recorded so far, together with the frames; it only grows (`World.Le`), since programs never bind `super` or
`this` themselves.

`World.Runs` follows a run into the program: it relates a phrase and the environment in which it is run to
the place where it stands.  The frames of the environment are those of the constructs around the place; in a
routine of a class they are the frames that the execution of its declaration closed the routine over, and
right inside of them that of a receiver whose lineage goes on as that of the class.
-/

namespace KScript

open Scope

/-! ## Classes -/

/-- The superclass of a class. -/
def ClassValue.parent? (cls : ClassValue) : Option ClassValue :=
  match cls.ancestors with
  | [] => none
  | own :: ancestors => some ⟨own, ancestors⟩

lemma ClassValue.parent?_mk (own : Layer) (parent : Option ClassValue) :
    (ClassValue.mk own ((parent.map (·.lineage)).getD [])).parent? = parent := by
  cases parent <;> rfl

lemma ClassValue.lineage_parent? {cls parent : ClassValue} (h : cls.parent? = some parent) :
    cls.lineage = cls.own :: parent.lineage := by
  obtain ⟨own, ancestors⟩ := cls
  cases ancestors with
  | nil => cases h
  | cons next rest =>
      cases h
      rfl

/-- The routines of a layer that have that role. -/
def Layer.group (l : Layer) : Role → Table Closure
  | .subroutine => .empty
  | .method => l.methods
  | .staticMethod => l.statics
  | .getter => l.getters
  | .setter => l.setters

/-- The table holds the routines, of one name the one that comes last, closed over the environment. -/
structure Table.Lists (table : Table Closure) (env : Env) (decls : List (Routine (Stmt Depth))) :
    Prop where
  last : ∀ name, (table.find? name).map (·.decl) = decls.reverse.find? (·.name.lexeme = name)
  env : ∀ name c, table.find? name = some c → c.env = env

namespace Table.Lists

variable {table : Table Closure} {env : Env} {decls : List (Routine (Stmt Depth))} {name : String}
  {c : Closure}

lemma find (h : table.Lists env decls) (hfind : table.find? name = some c) :
    c.decl ∈ decls ∧ c.decl.name.lexeme = name := by
  have hlast := h.last name
  rw [hfind, Option.map_some] at hlast
  exact ⟨List.mem_reverse.mp (List.mem_of_find?_eq_some hlast.symm),
    by simpa using List.find?_some hlast.symm⟩

end Table.Lists

/-! ## Records -/

/-- What one execution of a class declaration has made, and where. -/
structure Declared where
  /-- The constructs around the declaration. -/
  around : List Construct
  /-- The environment in which it was executed. -/
  outer : Env
  name : Token
  superclass : Option (Reference Depth)
  methods : List (Routine (Stmt Depth))
  statics : List (Routine (Stmt Depth))
  getters : List (Routine (Stmt Depth))
  setters : List (Routine (Stmt Depth))
  /-- The frame that binds the superclass. -/
  frame : Option Address
  cls : ClassValue

namespace Declared

/-- The declaration. -/
def decl (made : Declared) : Stmt Depth :=
  .classDecl made.name made.superclass made.methods made.statics made.getters made.setters

/-- The environment of the routines of the class. -/
def env (made : Declared) : Env := made.frame.toList ++ made.outer

/-- The routines of the declaration that have that role. -/
def routines (made : Declared) : Role → List (Routine (Stmt Depth))
  | .subroutine => []
  | .method => made.methods
  | .staticMethod => made.statics
  | .getter => made.getters
  | .setter => made.setters

/-- The class is the one that an execution of the declaration makes. -/
structure Sound (made : Declared) : Prop where
  name : made.cls.own.name = made.name.lexeme
  /-- Its superclass is the one that the execution found, and the frame for it was made then. -/
  found : ∃ fuel start next,
    (interpAt fuel).superclass made.outer made.superclass start = .ok made.cls.parent? next
      ∧ made.frame = made.cls.parent?.map fun _ => next.frames.size
  extended : made.superclass.isSome = made.frame.isSome
  routines : ∀ role, (made.cls.own.group role).Lists made.env (made.routines role)

/-- The records, latest first: each class is numbered later than those before it, and its superclass is one
of those. -/
def Orderly : List Declared → Prop
  | [] => True
  | made :: older => made.Sound ∧ (∀ old ∈ older, old.cls.own.ident < made.cls.own.ident)
    ∧ (∀ parent ∈ made.cls.parent?, ∃ old ∈ older, old.cls = parent) ∧ Orderly older

namespace Orderly

variable {known : List Declared} {made other : Declared}

lemma sound (h : Orderly known) (hmade : made ∈ known) : made.Sound := by
  induction known with
  | nil => cases hmade
  | cons first older ih =>
      rcases List.mem_cons.mp hmade with rfl | hmade
      · exact h.1
      · exact ih h.2.2.2 hmade

/-- A number belongs to one class. -/
lemma eq_of_ident (h : Orderly known) (hmade : made ∈ known) (hother : other ∈ known)
    (hident : made.cls.own.ident = other.cls.own.ident) : made = other := by
  induction known with
  | nil => cases hmade
  | cons first older ih =>
      obtain ⟨-, hlater, -, holder⟩ := h
      rcases List.mem_cons.mp hmade with rfl | hold
      · rcases List.mem_cons.mp hother with rfl | hold
        · rfl
        · exact absurd hident (Nat.ne_of_gt (hlater other hold))
      · rcases List.mem_cons.mp hother with rfl | hold'
        · exact absurd hident (Nat.ne_of_lt (hlater made hold))
        · exact ih holder hold hold'

/-- The superclass of a class was declared as well. -/
lemma parent (h : Orderly known) (hmade : made ∈ known) {parent : ClassValue}
    (hparent : made.cls.parent? = some parent) : ∃ old ∈ known, old.cls = parent := by
  induction known with
  | nil => cases hmade
  | cons first older ih =>
      obtain ⟨-, -, hparents, holder⟩ := h
      have hin : ∃ old ∈ older, old.cls = parent := by
        rcases List.mem_cons.mp hmade with rfl | hmade
        · exact hparents parent hparent
        · exact ih holder hmade
      exact hin.imp fun old hold => ⟨List.mem_cons_of_mem _ hold.1, hold.2⟩

/-- Every layer of a class is the own layer of a class whose lineage is the rest from there on. -/
lemma layer (h : Orderly known) (hmade : made ∈ known) {l : Layer} (hl : l ∈ made.cls.lineage) :
    ∃ old ∈ known, old.cls.own = l ∧ old.cls.lineage <:+ made.cls.lineage := by
  induction known generalizing made with
  | nil => cases hmade
  | cons first older ih =>
      obtain ⟨-, -, hparents, holder⟩ := h
      rcases List.mem_cons.mp hmade with rfl | hmade
      · rcases List.mem_cons.mp hl with rfl | hl
        · exact ⟨made, List.mem_cons_self, rfl, List.suffix_rfl⟩
        · cases hparent : made.cls.parent? with
          | none =>
              rw [ClassValue.parent?] at hparent
              split at hparent
              · next hnone =>
                  rw [hnone] at hl
                  cases hl
              · cases hparent
          | some parent =>
              have hlineage := ClassValue.lineage_parent? hparent
              have hancestors : made.cls.ancestors = parent.lineage := (List.cons.inj hlineage).2
              obtain ⟨old, hold, rfl⟩ := hparents parent hparent
              obtain ⟨found, hfound, hown, hsuffix⟩ := ih holder hold (hancestors ▸ hl)
              refine ⟨found, List.mem_cons_of_mem _ hfound, hown, ?_⟩
              rw [hlineage]
              exact hsuffix.trans (List.suffix_cons _ _)
      · obtain ⟨found, hfound, hrest⟩ := ih holder hmade hl
        exact ⟨found, List.mem_cons_of_mem _ hfound, hrest⟩

/-- **The lineage of a class is finite and never comes back**: its numbers go down. -/
lemma lineage (h : Orderly known) (hmade : made ∈ known) :
    made.cls.lineage.Pairwise fun l farther => farther.ident < l.ident := by
  induction known generalizing made with
  | nil => cases hmade
  | cons first older ih =>
      have hall := h
      obtain ⟨-, hlater, hparents, holder⟩ := h
      rcases List.mem_cons.mp hmade with rfl | hmade
      · cases hparent : made.cls.parent? with
        | none =>
            rw [ClassValue.parent?] at hparent
            split at hparent
            · next hnone =>
                rw [ClassValue.lineage, hnone]
                exact List.pairwise_singleton _ _
            · cases hparent
        | some parent =>
            obtain ⟨old, hold, rfl⟩ := hparents parent hparent
            rw [ClassValue.lineage_parent? hparent, List.pairwise_cons]
            refine ⟨fun l hl => ?_, ih holder hold⟩
            obtain ⟨found, hfound, rfl, -⟩ := holder.layer hold hl
            exact hlater found hfound
      · exact ih holder hmade

end Orderly

end Declared

/-! ## Worlds -/

/-- What has been recorded so far, and the frames. -/
structure World where
  /-- The class declarations that were executed, latest first. -/
  known : List Declared
  frames : Frames Value

/-- What has been recorded, in the frames of the machine. -/
def Machine.world (m : Machine) (known : List Declared) : World := ⟨known, m.frames⟩

namespace World

/-- The frame binds neither the receiver nor the superclass. -/
structure Plain (w : World) (address : Address) : Prop where
  size : address < w.frames.size
  receiver : (w.frames.frame address).find? thisName = none
  superclass : (w.frames.frame address).find? superName = none

/-- The frame binds a receiver whose lineage ends with that of the class. -/
structure Receives (w : World) (made : Declared) (address : Address) (object : Object) : Prop where
  bound : (w.frames.frame address).find? thisName = some (.object object)
  lineage : made.cls.lineage <:+ object.cls.lineage

/-- More is recorded, there are more frames, and what the frames bind to the reserved names stays. -/
structure Le (w next : World) : Prop where
  older : w.known <:+ next.known
  size : w.frames.size ≤ next.frames.size
  reserved : ∀ address < w.frames.size, ∀ name, name = thisName ∨ name = superName →
    (next.frames.frame address).find? name = (w.frames.frame address).find? name

variable {w next last : World}

namespace Le

lemma refl (w : World) : w.Le w := ⟨List.suffix_rfl, Nat.le_refl _, fun _ _ _ _ => rfl⟩

lemma trans (h : w.Le next) (h' : next.Le last) : w.Le last where
  older := h.older.trans h'.older
  size := Nat.le_trans h.size h'.size
  reserved address hlt name hname :=
    (h'.reserved address (Nat.lt_of_lt_of_le hlt h.size) name hname).trans (h.reserved address hlt name hname)

lemma known (h : w.Le next) {made : Declared} (hmade : made ∈ w.known) : made ∈ next.known :=
  h.older.subset hmade

/-- A reserved name that is bound stays bound to its value. -/
lemma find (h : w.Le next) {address : Address} {name : String} {v : Value}
    (hname : name = thisName ∨ name = superName)
    (hfind : (w.frames.frame address).find? name = some v) :
    (next.frames.frame address).find? name = some v := by
  have hlt : address < w.frames.size := by
    by_contra hge
    rw [Frames.frame, Array.getElem?_eq_none (Nat.le_of_not_lt hge)] at hfind
    cases hfind
  rw [h.reserved address hlt name hname, hfind]

end Le

lemma Plain.mono {address : Address} (h : w.Plain address) (hle : w.Le next) : next.Plain address where
  size := Nat.lt_of_lt_of_le h.size hle.size
  receiver := (hle.reserved address h.size _ (.inl rfl)).trans h.receiver
  superclass := (hle.reserved address h.size _ (.inr rfl)).trans h.superclass

lemma Receives.mono {made : Declared} {address : Address} {object : Object}
    (h : w.Receives made address object) (hle : w.Le next) : next.Receives made address object :=
  ⟨hle.find (.inl rfl) h.bound, h.lineage⟩

/-! ## Running phrases -/

/-- The phrase, which stands inside the constructs, is run in the environment. -/
inductive Runs (sources : List String) (w : World) : List Construct → Env → Phrase Depth → Prop where
  | top {s : Stmt Depth} (hs : Session.Stands sources [] (.stmt s)) :
      Runs sources w [] Machine.globalEnv (.stmt s)
  | part {around : List Construct} {env : Env} {p q : Phrase Depth} (h : Runs sources w around env p)
      (hq : ([], q) ∈ p.below) : Runs sources w around env q
  | enter {around : List Construct} {env : Env} {p q : Phrase Depth} {k : Construct} {address : Address}
      (h : Runs sources w around env p) (hk : k = .block ∨ k = .forLoop) (hq : ([k], q) ∈ p.below)
      (ha : w.Plain address) : Runs sources w (k :: around) (address :: env) q
  | subroutine {around : List Construct} {env : Env} {decl : Routine (Stmt Depth)} {s : Stmt Depth}
      {address : Address} (h : Runs sources w around env (.stmt (.routine decl))) (hs : s ∈ decl.body)
      (ha : w.Plain address) :
      Runs sources w (.routine .subroutine decl.name :: around) (address :: env) (.stmt s)
  | static {made : Declared} {c : Closure} {s : Stmt Depth} {address : Address} (hmade : made ∈ w.known)
      (h : Runs sources w made.around made.outer (.stmt made.decl))
      (hc : (made.cls.own.group .staticMethod).find? c.decl.name.lexeme = some c) (hs : s ∈ c.decl.body)
      (ha : w.Plain address) :
      Runs sources w (.routine .staticMethod c.decl.name :: .classDecl made.frame.isSome :: made.around)
        (address :: made.env) (.stmt s)
  | member {made : Declared} {role : Role} {c : Closure} {s : Stmt Depth} {address receiver : Address}
      {object : Object} (hmade : made ∈ w.known)
      (h : Runs sources w made.around made.outer (.stmt made.decl))
      (hrole : (Construct.routine role c.decl.name).hasReceiver = true)
      (hc : (made.cls.own.group role).find? c.decl.name.lexeme = some c) (hs : s ∈ c.decl.body)
      (ha : w.Plain address) (hreceiver : w.Receives made receiver object) :
      Runs sources w (.routine role c.decl.name :: .classDecl made.frame.isSome :: made.around)
        (address :: receiver :: made.env) (.stmt s)

namespace Runs

variable {sources : List String} {around : List Construct} {env : Env} {p : Phrase Depth}

lemma mono (h : w.Runs sources around env p) (hle : w.Le next) : next.Runs sources around env p := by
  induction h with
  | top hs => exact .top hs
  | part _ hq ih => exact .part ih hq
  | enter _ hk hq ha ih => exact .enter ih hk hq (ha.mono hle)
  | subroutine _ hs ha ih => exact .subroutine ih hs (ha.mono hle)
  | static hmade _ hc hs ha ih => exact .static (hle.known hmade) ih hc hs (ha.mono hle)
  | member hmade _ hrole hc hs ha hreceiver ih =>
      exact .member (hle.known hmade) ih hrole hc hs (ha.mono hle) (hreceiver.mono hle)

/-- More scripts. -/
lemma more {source : String} (h : w.Runs sources around env p) :
    w.Runs (source :: sources) around env p := by
  induction h with
  | top hs =>
      obtain ⟨src, hsrc, hrest⟩ := hs
      exact .top ⟨src, List.mem_cons_of_mem _ hsrc, hrest⟩
  | part _ hq ih => exact .part ih hq
  | enter _ hk hq ha ih => exact .enter ih hk hq ha
  | subroutine _ hs ha ih => exact .subroutine ih hs ha
  | static hmade _ hc hs ha ih => exact .static hmade ih hc hs ha
  | member hmade _ hrole hc hs ha hreceiver ih => exact .member hmade ih hrole hc hs ha hreceiver

/-- The statements of a class's routines are among its parts. -/
lemma below_decl {made : Declared} (hsound : made.Sound) {role : Role} {c : Closure} {s : Stmt Depth}
    (hc : (made.cls.own.group role).find? c.decl.name.lexeme = some c) (hs : s ∈ c.decl.body) :
    ([.routine role c.decl.name, .classDecl made.frame.isSome], .stmt s)
      ∈ (Phrase.stmt made.decl).below := by
  obtain ⟨hmem, -⟩ := (hsound.routines role).find hc
  have hphrase (outer : List Construct) : (.routine role c.decl.name :: outer, Phrase.stmt s)
      ∈ Routine.phrases role outer (made.routines role) :=
    List.mem_flatMap.mpr ⟨c.decl, hmem, List.mem_map.mpr ⟨s, hs, rfl⟩⟩
  rw [← hsound.extended]
  simp only [Declared.decl, Phrase.below, Stmt.phrases, List.mem_append]
  cases role with
  | subroutine => cases hmem
  | method => exact .inl (.inl (.inl (.inr (hphrase _))))
  | staticMethod => exact .inl (.inl (.inr (hphrase _)))
  | getter => exact .inl (.inr (hphrase _))
  | setter => exact .inr (hphrase _)

/-- **A phrase that is run stands in an accepted script.** -/
theorem stands (hknown : Declared.Orderly w.known) (h : w.Runs sources around env p) :
    Session.Stands sources around p := by
  induction h with
  | top hs => exact hs
  | part _ hq ih => exact ih.part hq
  | enter _ _ hq _ ih => exact ih.part hq
  | @subroutine _ _ decl s _ _ hs _ ih =>
      have hmem : ([.routine .subroutine decl.name], .stmt s) ∈ (Phrase.stmt (.routine decl)).below :=
        List.mem_flatMap.mpr ⟨decl, List.mem_singleton_self _, List.mem_map.mpr ⟨s, hs, rfl⟩⟩
      exact ih.part hmem
  | static hmade _ hc hs _ ih | member hmade _ _ hc hs _ _ ih =>
      have hbody := ih.part (below_decl (hknown.sound hmade) hc hs)
      exact hbody

end Runs

end World

/-- The one phrase is the other or a part of it, at any depth. -/
inductive Phrase.Within {β : Type} (p : Phrase β) : Phrase β → Prop where
  | self : Within p p
  | part {q r : Phrase β} (h : Within p q) (hr : r ∈ q.parts) : Within p r

/-! ## Routines of a class that are run -/

/-- Where a phrase is run in a routine of a class. -/
structure World.InRoutine (w : World) (inner : List Construct) (role : Role) (name : Token)
    (extended : Bool) (outer : List Construct) (env : Env) (p : Phrase Depth) (made : Declared) : Prop where
  known : made ∈ w.known
  around : made.around = outer
  extended : made.frame.isSome = extended
  /-- No other class is in between. -/
  plain : ∀ k ∈ inner, k.marks = [(false, false)]
  /-- The phrase is in the body of the routine that the class has under its name. -/
  entry : ∃ c s, (made.cls.own.group role).find? name.lexeme = some c ∧ s ∈ c.decl.body
    ∧ Phrase.Within (.stmt s) p
  /-- The frames are those of the constructs in between and of the parameters, then that of the receiver
  if there is one, then those of the class. -/
  env : ∃ frames receivers, env = frames ++ (receivers ++ made.env) ∧ frames.length = inner.length + 1
    ∧ (∀ address ∈ frames, w.Plain address)
    ∧ (if (Construct.routine role name).hasReceiver = true then
        ∃ address object, receivers = [address] ∧ w.Receives made address object
      else receivers = [])

namespace World

variable {w : World} {sources : List String} {around : List Construct} {env : Env} {p : Phrase Depth}

lemma InRoutine.part {inner : List Construct} {role : Role} {name : Token} {extended : Bool}
    {outer : List Construct} {made : Declared} {q : Phrase Depth}
    (h : w.InRoutine inner role name extended outer env p made) (hq : q ∈ p.parts) :
    w.InRoutine inner role name extended outer env q made := by
  obtain ⟨c, s, hc, hs, hwithin⟩ := h.entry
  exact { h with entry := ⟨c, s, hc, hs, hwithin.part hq⟩ }

lemma InRoutine.enter {inner : List Construct} {role : Role} {name : Token} {extended : Bool}
    {outer : List Construct} {made : Declared} {q : Phrase Depth} {k : Construct} {address : Address}
    (h : w.InRoutine inner role name extended outer env p made) (hk : k.marks = [(false, false)])
    (hq : q ∈ p.parts) (ha : w.Plain address) :
    w.InRoutine (k :: inner) role name extended outer (address :: env) q made := by
  obtain ⟨c, s, hc, hs, hwithin⟩ := h.entry
  obtain ⟨frames, receivers, rfl, hlength, hplain, hreceivers⟩ := h.env
  exact
    { h with
      plain := List.forall_mem_cons.mpr ⟨hk, h.plain⟩
      entry := ⟨c, s, hc, hs, hwithin.part hq⟩
      env := ⟨address :: frames, receivers, rfl, by simp [hlength],
        List.forall_mem_cons.mpr ⟨ha, hplain⟩, hreceivers⟩ }

/-- **A phrase that is run in a class is run in one of its routines.** -/
theorem Runs.inRoutine (h : w.Runs sources around env p) {extended : Bool}
    (hclass : around.find? Construct.isClass = some (.classDecl extended)) :
    ∃ inner role name outer made, around = inner ++ .routine role name :: .classDecl extended :: outer
      ∧ w.InRoutine inner role name extended outer env p made := by
  induction h with
  | top => cases hclass
  | part _ hq ih =>
      obtain ⟨inner, role, name, outer, made, heq, hin⟩ := ih hclass
      exact ⟨inner, role, name, outer, made, heq, hin.part (List.mem_map.mpr ⟨_, hq, rfl⟩)⟩
  | @enter around env p q k address _ hk hq ha ih =>
      have hmarks : k.marks = [(false, false)] := by rcases hk with rfl | rfl <;> rfl
      rw [List.find?_cons_of_neg (by rcases hk with rfl | rfl <;> simp [Construct.isClass])] at hclass
      obtain ⟨inner, role, name, outer, made, rfl, hin⟩ := ih hclass
      exact ⟨k :: inner, role, name, outer, made, rfl,
        hin.enter hmarks (List.mem_map.mpr ⟨_, hq, rfl⟩) ha⟩
  | @subroutine around env decl s address _ hs ha ih =>
      rw [List.find?_cons_of_neg (by simp [Construct.isClass])] at hclass
      obtain ⟨inner, role, name, outer, made, rfl, hin⟩ := ih hclass
      refine ⟨_ :: inner, role, name, outer, made, rfl, hin.enter rfl ?_ ha⟩
      simp only [Phrase.parts, Phrase.below, Stmt.phrases, Routine.phrases, List.flatMap_singleton,
        List.map_map]
      exact List.mem_map.mpr ⟨s, hs, rfl⟩
  | @static made c s address hmade _ hc hs ha _ =>
      rw [List.find?_cons_of_neg (by simp [Construct.isClass]),
        List.find?_cons_of_pos (by simp [Construct.isClass])] at hclass
      cases hclass
      exact ⟨[], _, _, _, made, rfl,
        { known := hmade
          around := rfl
          extended := rfl
          plain := by simp
          entry := ⟨c, s, hc, hs, .self⟩
          env := ⟨[address], [], rfl, rfl, by simpa using ha, by simp [Construct.hasReceiver]⟩ }⟩
  | @member made role c s address receiver object hmade _ hrole hc hs ha hreceiver _ =>
      rw [List.find?_cons_of_neg (by simp [Construct.isClass]),
        List.find?_cons_of_pos (by simp [Construct.isClass])] at hclass
      cases hclass
      exact ⟨[], _, _, _, made, rfl,
        { known := hmade
          around := rfl
          extended := rfl
          plain := by simp
          entry := ⟨c, s, hc, hs, .self⟩
          env := ⟨[address], [receiver], rfl, rfl, by simpa using ha, by
            rw [if_pos hrole]
            exact ⟨receiver, object, rfl, hreceiver⟩⟩ }⟩

end World

/-! ## Values -/

/-- The routine can be called: where its body stands is known. -/
inductive Closure.Linked (sources : List String) (w : World) : Closure → Prop where
  | subroutine {around : List Construct} {c : Closure}
      (h : w.Runs sources around c.env (.stmt (.routine c.decl))) : Linked sources w c
  | static {made : Declared} {c : Closure} (hmade : made ∈ w.known)
      (hc : (made.cls.own.group .staticMethod).find? c.decl.name.lexeme = some c) : Linked sources w c
  | bound {made : Declared} {role : Role} {method c : Closure} {receiver : Address} {object : Object}
      (hmade : made ∈ w.known) (hrole : (Construct.routine role c.decl.name).hasReceiver = true)
      (hc : (made.cls.own.group role).find? method.decl.name.lexeme = some method)
      (hdecl : c.decl = method.decl) (henv : c.env = receiver :: made.env)
      (hreceiver : w.Receives made receiver object) : Linked sources w c

/-- The class was made by a declaration that is recorded. -/
def ClassValue.Known (w : World) (cls : ClassValue) : Prop := ∃ made ∈ w.known, made.cls = cls

/-- Classes and routines in the value are known. -/
inductive Value.Linked (sources : List String) (w : World) : Value → Prop where
  | scalar (literal : Literal) : Linked sources w (.scalar literal)
  | array {ident : Nat} {items : List Value} (h : ∀ v ∈ items, Linked sources w v) :
      Linked sources w (.array ident items)
  | native (n : Native) : Linked sources w (.native n)
  | routine {c : Closure} (h : c.Linked sources w) : Linked sources w (.routine c)
  | classValue {cls : ClassValue} (h : cls.Known w) : Linked sources w (.classValue cls)
  | object {object : Object} (h : object.cls.Known w) : Linked sources w (.object object)

section

variable {sources : List String} {w next : World}

lemma ClassValue.Known.mono {cls : ClassValue} (h : cls.Known w) (hle : w.Le next) : cls.Known next :=
  h.imp fun _ hmade => ⟨hle.known hmade.1, hmade.2⟩

lemma Closure.Linked.mono {c : Closure} (h : c.Linked sources w) (hle : w.Le next) :
    c.Linked sources next := by
  cases h with
  | subroutine h => exact .subroutine (h.mono hle)
  | static hmade hc => exact .static (hle.known hmade) hc
  | bound hmade hrole hc hdecl henv hreceiver =>
      exact .bound (hle.known hmade) hrole hc hdecl henv (hreceiver.mono hle)

lemma Value.Linked.mono {v : Value} (h : v.Linked sources w) (hle : w.Le next) :
    v.Linked sources next := by
  induction h with
  | scalar literal => exact .scalar literal
  | array _ ih => exact .array ih
  | native n => exact .native n
  | routine h => exact .routine (h.mono hle)
  | classValue h => exact .classValue (h.mono hle)
  | object h => exact .object (h.mono hle)

lemma Value.Linked.more {v : Value} {source : String} (h : v.Linked sources w) :
    v.Linked (source :: sources) w := by
  induction h with
  | scalar literal => exact .scalar literal
  | array _ ih => exact .array ih
  | native n => exact .native n
  | routine h =>
      refine .routine ?_
      cases h with
      | subroutine h => exact .subroutine h.more
      | static hmade hc => exact .static hmade hc
      | bound hmade hrole hc hdecl henv hreceiver => exact .bound hmade hrole hc hdecl henv hreceiver
  | classValue h => exact .classValue h
  | object h => exact .object h

end

/-! ## Machines -/

/-- What the record says still holds in the world. -/
structure Declared.Kept (sources : List String) (w : World) (made : Declared) : Prop where
  runs : w.Runs sources made.around made.outer (.stmt made.decl)
  superclass : ∀ address ∈ made.frame, ∃ parent, made.cls.parent? = some parent
    ∧ (w.frames.frame address).find? superName = some (.classValue parent)

lemma Declared.Kept.mono {sources : List String} {w next : World} {made : Declared}
    (h : made.Kept sources w) (hle : w.Le next) : made.Kept sources next where
  runs := h.runs.mono hle
  superclass address haddress :=
    (h.superclass address haddress).imp fun _ hparent => ⟨hparent.1, hle.find (.inr rfl) hparent.2⟩

/-- All classes on the machine are recorded, and all its routines stand in the scripts. -/
structure Machine.Knows (sources : List String) (known : List Declared) (m : Machine) : Prop where
  orderly : Declared.Orderly known
  fresh : ∀ made ∈ known, made.cls.own.ident < m.fresh
  kept : ∀ made ∈ known, made.Kept sources (m.world known)
  linked : ∀ cell, (m.contents cell).All (Value.Linked sources (m.world known))

namespace Machine.Knows

variable {sources : List String} {known : List Declared} {m n : Machine}

lemma more {source : String} (h : m.Knows sources known) : m.Knows (source :: sources) known where
  orderly := h.orderly
  fresh := h.fresh
  kept made hmade := ⟨(h.kept made hmade).runs.more, (h.kept made hmade).superclass⟩
  linked cell name v hv := (h.linked cell name v hv).more

/-- A machine whose frames have grown and whose cells hold what is known. -/
lemma next (h : m.Knows sources known) (hle : (m.world known).Le (n.world known)) (hfresh : m.fresh ≤ n.fresh)
    (hlinked : ∀ cell, (n.contents cell).All (Value.Linked sources (n.world known))) :
    n.Knows sources known where
  orderly := h.orderly
  fresh made hmade := Nat.lt_of_lt_of_le (h.fresh made hmade) hfresh
  kept made hmade := (h.kept made hmade).mono hle
  linked := hlinked

/-- Nothing but the cells and the number of the next event matters. -/
lemma congr (h : m.Knows sources known) (hframes : n.frames = m.frames) (hfields : n.fields = m.fields)
    (hfresh : m.fresh ≤ n.fresh) : n.Knows sources known := by
  have hworld : n.world known = m.world known := by rw [world, world, hframes]
  refine h.next (hworld ▸ World.Le.refl _) hfresh fun cell => ?_
  rw [hworld, contents_congr hframes hfields]
  exact h.linked cell

lemma le_newFrame (m : Machine) (known : List Declared) (bindings : Table Value) :
    (m.world known).Le (({ m with frames := m.frames.push bindings } : Machine).world known) where
  older := List.suffix_rfl
  size := by simp [world]
  reserved address hlt name _ := by
    simp only [world, Frames.frame_push] at hlt ⊢
    rw [if_neg (Nat.ne_of_lt hlt)]

lemma newFrame (h : m.Knows sources known) {bindings : Table Value}
    (hnew : bindings.All (Value.Linked sources (m.world known))) :
    ({ m with frames := m.frames.push bindings } : Machine).Knows sources known := by
  have hle := le_newFrame m known bindings
  exact h.next hle (Nat.le_refl _) fun cell =>
    all_contents_newFrame (fun name v hv => (h.linked cell name v hv).mono hle)
      fun name v hv => (hnew name v hv).mono hle

lemma newObject (h : m.Knows sources known) :
    ({ m with fields := m.fields.push Table.empty } : Machine).Knows sources known := by
  refine h.next (World.Le.refl _) (Nat.le_refl _) fun cell => ?_
  rw [contents_newObject]
  exact h.linked cell

lemma le_put (m : Machine) (known : List Declared) {cell : Cell} {name : String} (v : Value)
    (hname : ∀ address, cell = .frame address → name ≠ thisName ∧ name ≠ superName) :
    (m.world known).Le ((m.put cell name v).world known) := by
  cases cell with
  | object ident => exact World.Le.refl _
  | frame target =>
      obtain ⟨hthis, hsuper⟩ := hname target rfl
      refine ⟨List.suffix_rfl, by simp [world, put], fun address hlt key hkey => ?_⟩
      simp only [world, put, Frames.frame_define]
      split
      · rw [Table.find?_insert, if_neg]
        rcases hkey with rfl | rfl
        · exact hthis
        · exact hsuper
      · rfl

/-- A name that is not reserved is bound in a cell. -/
lemma put (h : m.Knows sources known) {cell : Cell} {name : String} {v : Value}
    (hname : ∀ address, cell = .frame address → name ≠ thisName ∧ name ≠ superName)
    (hv : v.Linked sources (m.world known)) : (m.put cell name v).Knows sources known := by
  have hle := le_put m known v hname
  have hfresh : m.fresh ≤ (m.put cell name v).fresh := by cases cell <;> exact Nat.le_refl _
  exact h.next hle hfresh fun other =>
    all_contents_put name (fun key u hu => (h.linked other key u hu).mono hle) (hv.mono hle)

end Machine.Knows

end KScript

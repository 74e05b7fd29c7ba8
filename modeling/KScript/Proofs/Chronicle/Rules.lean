import KScript.Proofs.Chronicle.Laws
import KScript.Proofs.Reach.Confinement

/-!
# Chronicles that follow a run

A machine and its chronicle are sound (`Annals.Sound`) if the chronicle is lawful, the cells hold what was last
put into them, and the machine has given out the number of everything that was made.  `Chronicle.Follows`
compares the keeping of a chronicle with a run of the plain evaluator: from a sound state they end alike and on
the same machine, the chronicle has only grown, and the state is sound again.

There is a rule for each way to put such computations together, and one for each kind of entry.
-/

namespace KScript

open Chronicle

/-! ## Sound states -/

/-- The machine has given out the number of the value. -/
def Machine.Issued (m : Machine) : Value → Prop
  | .array ident _ => ident < m.fresh
  | .routine c => c.ident < m.fresh ∧ Env.Within m.Has c.env
  | .classValue cls => cls.own.ident < m.fresh
  | .object o => m.Has (.object o.ident)
  | _ => True

/-- The value has the number that the machine gives out next. -/
def Machine.Next (m : Machine) : Value → Prop
  | .array ident _ => ident = m.fresh
  | .routine c => c.ident = m.fresh ∧ Env.Within m.Has c.env
  | .classValue cls => cls.own.ident = m.fresh
  | _ => False

namespace Machine

variable {m n : Machine} {v w : Value}

lemma Issued.mono (h : m.Issued v) (hfresh : m.fresh ≤ n.fresh) (hhas : ∀ cell, m.Has cell → n.Has cell) :
    n.Issued v := by
  cases v with
  | array ident items => exact Nat.lt_of_lt_of_le h hfresh
  | routine c => exact ⟨Nat.lt_of_lt_of_le h.1 hfresh, fun address ha => hhas _ (h.2 address ha)⟩
  | classValue cls => exact Nat.lt_of_lt_of_le h hfresh
  | object o => exact hhas (.object o.ident) h
  | _ => trivial

/-- A value with the next number is new. -/
lemma Next.same_eq_false (h : m.Next v) (hw : m.Issued w) : v.same w = false := by
  cases v <;> cases w <;> simp_all [Next, Issued, Value.same] <;> omega

/-- Its number is then given out. -/
lemma Next.issued (h : m.Next v) : ({ m with fresh := m.fresh + 1 } : Machine).Issued v := by
  cases v with
  | array ident items => exact Nat.lt_succ_of_le (Nat.le_of_eq h)
  | routine c =>
      refine ⟨Nat.lt_succ_of_le (Nat.le_of_eq h.1), fun address ha => ?_⟩
      exact h.2 address ha
  | classValue cls => exact Nat.lt_succ_of_le (Nat.le_of_eq h)
  | _ => exact h.elim

/-- The machines have the same cells, and have given out the same numbers. -/
structure SameCells (m n : Machine) : Prop where
  frames : n.frames = m.frames
  fields : n.fields = m.fields
  fresh : n.fresh = m.fresh

namespace SameCells

lemma refl (m : Machine) : m.SameCells m := ⟨rfl, rfl, rfl⟩

lemma trans {k : Machine} (h : m.SameCells n) (h' : n.SameCells k) : m.SameCells k :=
  ⟨h'.frames.trans h.frames, h'.fields.trans h.fields, h'.fresh.trans h.fresh⟩

lemma contents (h : m.SameCells n) (cell : Cell) : n.contents cell = m.contents cell := by
  cases cell <;> simp only [Machine.contents, fieldsOf, h.frames, h.fields]

lemma has (h : m.SameCells n) {cell : Cell} (hcell : m.Has cell) : n.Has cell := by
  cases cell <;> simpa only [Has, h.frames, h.fields] using hcell

end SameCells

end Machine

/-- The chronicle is the one of the machine. -/
structure Annals.Sound (s : Annals) : Prop where
  lawful : Lawful s.past
  memory : ∀ cell name, (s.machine.contents cell).find? name = latest s.past cell name
  issued : ∀ origin v, .made origin v ∈ s.past → s.machine.Issued v
  global : s.machine.Has (.frame Machine.globalAddress)

/-- From one state to the other the chronicle has grown and no cell is gone. -/
structure Annals.Le (s t : Annals) : Prop where
  past : s.past <:+ t.past
  has : ∀ cell, s.machine.Has cell → t.machine.Has cell

/-- The environment is in sight: it has an innermost frame, and its frames exist. -/
def Annals.Sees (s : Annals) (env : Env) : Prop := env ≠ [] ∧ Env.Within s.machine.Has env

/-- The entry neither binds a name nor tells of an event. -/
def Chronicle.Entry.Silent : Entry → Prop
  | .made _ _ => False
  | .put _ _ _ => False
  | _ => True

namespace Annals

variable {s t u : Annals} {n : Machine} {env : Env} {entry : Entry} {v : Value}

namespace Le

lemma refl (s : Annals) : s.Le s := ⟨List.suffix_rfl, fun _ h => h⟩

lemma trans (h : s.Le t) (h' : t.Le u) : s.Le u :=
  ⟨h.past.trans h'.past, fun cell hcell => h'.has cell (h.has cell hcell)⟩

lemma add (s : Annals) (entry : Entry) : s.Le (s.add entry) := ⟨List.suffix_cons _ _, fun _ h => h⟩

end Le

lemma Sees.mono (h : s.Le t) (henv : s.Sees env) : t.Sees env :=
  ⟨henv.1, fun address ha => h.has _ (henv.2 address ha)⟩

/-- A new innermost frame. -/
lemma Sees.cons {address : Address} (h : Env.Within s.machine.Has env)
    (haddress : s.machine.Has (.frame address)) : s.Sees (address :: env) :=
  ⟨List.cons_ne_nil _ _, h.cons haddress⟩

namespace Sound

/-- A value of the chronicle is known to the machine. -/
lemma issued_of_stems (hs : s.Sound) (hv : v.Stems s.past) : s.machine.Issued v := by
  rcases hv with ⟨literal, rfl⟩ | ⟨origin, hmade⟩
  · trivial
  · exact hs.issued origin v hmade

/-- An operation that changes no cell. -/
lemma like (hs : s.Sound) (h : s.machine.SameCells n) : Sound { s with machine := n } where
  lawful := hs.lawful
  memory cell name := by rw [h.contents, hs.memory]
  issued origin v hmade := (hs.issued origin v hmade).mono (Nat.le_of_eq h.fresh.symm) fun _ => h.has
  global := h.has hs.global

/-- An entry that neither binds a name nor tells of an event. -/
lemma add (hs : s.Sound) (hsilent : entry.Silent) (hlaw : entry.Law s.past) : (s.add entry).Sound where
  lawful := ⟨hlaw, hs.lawful⟩
  memory cell name := by
    rw [Annals.add, hs.memory]
    cases entry with
    | made _ _ => exact hsilent.elim
    | put _ _ _ => exact hsilent.elim
    | _ => rfl
  issued origin v hmade := by
    rcases List.mem_cons.mp hmade with rfl | hold
    · exact hsilent.elim
    · exact hs.issued origin v hold
  global := hs.global

/-- An event. -/
lemma made {origin : Origin} (hs : s.Sound) (hlaw : (Entry.made origin v).Law s.past)
    (hcontents : ∀ cell, n.contents cell = s.machine.contents cell)
    (hfresh : s.machine.fresh ≤ n.fresh) (hhas : ∀ cell, s.machine.Has cell → n.Has cell)
    (hissued : n.Issued v) : Sound ⟨n, .made origin v :: s.past⟩ where
  lawful := ⟨hlaw, hs.lawful⟩
  memory cell name := by
    rw [hcontents, hs.memory]
    rfl
  issued other w hmade := by
    rcases List.mem_cons.mp hmade with heq | hold
    · cases heq
      exact hissued
    · exact (hs.issued other w hold).mono hfresh hhas
  global := hhas _ hs.global

/-- A binding in a cell. -/
lemma put {cell : Cell} (hs : s.Sound) (hcell : s.machine.Has cell) (name : String)
    (hv : v.Stems s.past) : Sound ⟨s.machine.put cell name v, .put cell name v :: s.past⟩ where
  lawful := ⟨hv, hs.lawful⟩
  memory other key := by
    rw [latest]
    by_cases hother : other = cell
    · subst hother
      rw [Machine.contents_put_self name hcell, Table.find?_insert, hs.memory]
      simp
    · rw [Machine.contents_put_of_ne name hother, hs.memory, if_neg fun h => hother h.1.symm]
  issued origin w hmade := by
    rcases List.mem_cons.mp hmade with heq | hold
    · cases heq
    · have hfresh : s.machine.fresh ≤ (s.machine.put cell name v).fresh := by cases cell <;> exact Nat.le_refl _
      exact (hs.issued origin w hold).mono hfresh fun _ => (Machine.has_put name).mpr
  global := (Machine.has_put name).mpr hs.global

end Sound

end Annals

/-! ## New frames -/

namespace Chronicle

variable {past : List Entry} {bindings : List (String × Value)} {address : Address}

/-- The entries of new bindings, one more. -/
lemma puts_append_cons (address : Address) (name : String) (v : Value)
    (bindings : List (String × Value)) (past : List Entry) :
    Entry.puts address ((name, v) :: bindings) ++ past
      = Entry.puts address bindings ++ .put (.frame address) name v :: past := by
  simp [Entry.puts]

lemma Lawful.puts_append (h : Lawful past) (hbindings : ∀ binding ∈ bindings, binding.2.Stems past) :
    Lawful (Entry.puts address bindings ++ past) := by
  induction bindings generalizing past with
  | nil => exact h
  | cons binding rest ih =>
      obtain ⟨hv, hrest⟩ := List.forall_mem_cons.mp hbindings
      rw [puts_append_cons]
      exact ih ⟨hv, h⟩ fun b hb => (hrest b hb).mono (List.suffix_cons _ _)

/-- A frame that holds what the chronicle says holds the new bindings too. -/
lemma find?_foldl_insert {t : Table Value} (h : ∀ name, t.find? name = latest past (.frame address) name)
    (name : String) :
    (bindings.foldl (fun t binding => t.insert binding.1 binding.2) t).find? name
      = latest (Entry.puts address bindings ++ past) (.frame address) name := by
  induction bindings generalizing t past with
  | nil => exact h name
  | cons binding rest ih =>
      rw [puts_append_cons]
      refine ih fun key => ?_
      rw [Table.find?_insert, h, latest]
      simp

/-- Other cells are as they were. -/
lemma latest_puts_append {cell : Cell} (hcell : cell ≠ .frame address) (name : String) :
    latest (Entry.puts address bindings ++ past) cell name = latest past cell name := by
  induction bindings generalizing past with
  | nil => rfl
  | cons binding rest ih => rw [puts_append_cons, ih, latest, if_neg fun h => hcell h.1.symm]

lemma mem_of_mem_puts_append {origin : Origin} {v : Value}
    (h : .made origin v ∈ Entry.puts address bindings ++ past) : .made origin v ∈ past := by
  simpa [Entry.puts] using h

end Chronicle

/-- A new frame. -/
lemma Annals.Sound.newFrame {s : Annals} {bindings : List (String × Value)} (hs : s.Sound)
    (hbindings : ∀ binding ∈ bindings, binding.2.Stems s.past) :
    Sound ⟨{ s.machine with frames := s.machine.frames.push (.ofList bindings) },
      Entry.puts s.machine.frames.size bindings ++ s.past⟩ := by
  have hhas : ∀ cell, s.machine.Has cell →
      ({ s.machine with frames := s.machine.frames.push (.ofList bindings) } : Machine).Has cell := by
    rintro (address | ident) hcell
    · simpa [Machine.Has] using Nat.lt_succ_of_lt hcell
    · exact hcell
  refine ⟨hs.lawful.puts_append hbindings, fun cell name => ?_, fun origin v hmade => ?_, hhas _ hs.global⟩
  · rw [Machine.contents_newFrame]
    split
    · next hcell =>
        -- nothing was bound in the frame before it was there
        have hempty : ∀ key, (Table.empty : Table Value).find? key
            = latest s.past (.frame s.machine.frames.size) key := by
          intro key
          rw [← hs.memory, Machine.contents_of_not_has (Nat.lt_irrefl _)]
        rw [hcell]
        exact find?_foldl_insert hempty name
    · next hcell => rw [latest_puts_append hcell, hs.memory]
  · exact (hs.issued origin v (mem_of_mem_puts_append hmade)).mono (Nat.le_refl _) hhas

/-! ## Following -/

namespace Chronicle

variable {α β : Type}

/-- From the state, the chronicle and the run have ended alike; `Q` is a property of results and of the states
they are reached in. -/
inductive Tells (s : Annals) (Q : α → Annals → Prop) :
    EStateM.Result Signal Annals α → EStateM.Result Signal Machine α → Prop where
  | ok {a : α} {t : Annals} (le : s.Le t) (sound : t.Sound) (result : Q a t) :
      Tells s Q (.ok a t) (.ok a t.machine)
  | error {signal : Signal} {t : Annals} (le : s.Le t) (sound : t.Sound) :
      Tells s Q (.error signal t) (.error signal t.machine)

/-- From the state, keeping the chronicle follows the run. -/
def Follows (s : Annals) (x : Chronicle α) (y : Run α) (Q : α → Annals → Prop) : Prop :=
  Tells s Q (x s) (y s.machine)

end Chronicle

/-- The operation changes no cell and gives out no number; `P` is a property of its results. -/
def Run.Quiet {α : Type} (P : α → Prop) (y : Run α) : Prop :=
  ∀ m, match y m with
    | .ok a n => m.SameCells n ∧ P a
    | .error _ n => m.SameCells n

namespace Chronicle.Follows

variable {α β : Type} {s : Annals} {x : Chronicle α} {y : Run α} {Q : α → Annals → Prop}
  {Q' : β → Annals → Prop} {f : α → Chronicle β} {g : α → Run β} {entry : Entry}

lemma pure {a : α} (hs : s.Sound) (h : Q a s) : Follows s (pure a) (pure a) Q :=
  Tells.ok (.refl s) hs h

lemma imp {R : α → Annals → Prop} (h : Follows s x y Q)
    (hQ : ∀ a t, s.Le t → t.Sound → Q a t → R a t) : Follows s x y R := by
  unfold Follows at h ⊢
  generalize x s = r at h ⊢
  generalize y s.machine = r' at h ⊢
  cases h with
  | ok le sound result => exact .ok le sound (hQ _ _ le sound result)
  | error le sound => exact .error le sound

/-- What follows from a state on the way follows from the start. -/
lemma after {t : Annals} {r : EStateM.Result Signal Annals α} {r' : EStateM.Result Signal Machine α}
    (hle : s.Le t) (h : Tells t Q r r') : Tells s Q r r' := by
  cases h with
  | ok le sound result => exact .ok (hle.trans le) sound result
  | error le sound => exact .error (hle.trans le) sound

lemma bind (h : Follows s x y Q) (hf : ∀ a t, s.Le t → t.Sound → Q a t → Follows t (f a) (g a) Q') :
    Follows s (x >>= f) (y >>= g) Q' := by
  unfold Follows at h ⊢
  simp only [Bind.bind, EStateM.bind]
  generalize x s = r at h ⊢
  generalize y s.machine = r' at h ⊢
  cases h with
  | error le sound => exact .error le sound
  | ok le sound result => exact after le (hf _ _ le sound result)

/-- An operation of the machine that leaves no entry. -/
lemma quiet {P : α → Prop} (hs : s.Sound) (hy : y.Quiet P) :
    Follows s (act y) y fun a t => t.past = s.past ∧ P a := by
  have h := hy s.machine
  unfold Follows
  simp only [act]
  cases hrun : y s.machine with
  | ok a n =>
      rw [hrun] at h
      exact .ok ⟨List.suffix_rfl, fun _ => h.1.has⟩ (hs.like h.1) ⟨rfl, h.2⟩
  | error signal n =>
      rw [hrun] at h
      exact .error ⟨List.suffix_rfl, fun _ => h.has⟩ (hs.like h)

lemma throw (hs : s.Sound) (signal : Signal) : Follows s (act (throw signal)) (throw signal) Q :=
  Tells.error (.refl s) hs

lemma fail (hs : s.Sound) (line : Nat) (cause : Cause) :
    Follows s (act (Run.fail line cause)) (Run.fail line cause) Q := throw hs _

/-- An entry that only the chronicle knows of. -/
lemma log {f : Unit → Chronicle α} (hs : s.Sound) (hsilent : entry.Silent) (hlaw : entry.Law s.past)
    (h : (s.add entry).Sound → Follows (s.add entry) (f ()) y Q) : Follows s (log entry >>= f) y Q :=
  after (.add s entry) (h (hs.add hsilent hlaw))

/-- An entry whose number is told. -/
lemma record {f : Nat → Chronicle α} (hs : s.Sound) (hsilent : entry.Silent)
    (hlaw : entry.Law s.past)
    (h : (s.add entry).Sound → Follows (s.add entry) (f s.past.length) y Q) :
    Follows s (record entry >>= f) y Q :=
  after (.add s entry) (h (hs.add hsilent hlaw))

/-- An entry of the result. -/
lemma logged {entry : α → Entry} (h : Follows s x y Q) (hsilent : ∀ a, (entry a).Silent)
    (hlaw : ∀ a t, t.Sound → Q a t → (entry a).Law t.past) :
    Follows s (do let a ← x; Chronicle.log (entry a); return a) y fun a t => Last t.past (entry a) := by
  have hy : y = y >>= Pure.pure := (bind_pure y).symm
  rw [hy]
  refine bind h fun a t _ ht hQ => log ht (hsilent a) (hlaw a t ht hQ) fun hadd => pure hadd ?_
  exact last_cons.mpr rfl

/-! ## Events and cells -/

/-- An event whose number is the next. -/
lemma event {origin : Origin} {product : Nat → Value} (hs : s.Sound)
    (hmakes : origin.Makes s.past (product s.machine.fresh))
    (hnext : s.machine.Next (product s.machine.fresh))
    (hcontains : ∀ part, (product s.machine.fresh).Contains part → part.Stems s.past) :
    Follows s (event origin product) Run.newIdent fun ident t =>
      t.past = .made origin (product ident) :: s.past := by
  have hnew : ∀ other w, .made other w ∈ s.past → (product s.machine.fresh).same w = false :=
    fun other w hmade => hnext.same_eq_false (hs.issued other w hmade)
  have hsound := hs.made (n := { s.machine with fresh := s.machine.fresh + 1 }) ⟨hmakes, hnew, hcontains⟩
    (fun _ => rfl) (Nat.le_succ _) (fun _ h => h) hnext.issued
  exact Tells.ok (t := ⟨{ s.machine with fresh := s.machine.fresh + 1 }, _⟩)
    ⟨List.suffix_cons _ _, fun _ h => h⟩ hsound rfl

lemma newObject {cls : ClassValue} (hs : s.Sound) (hcls : (Value.classValue cls).Stems s.past) :
    Follows s (newObject cls) (Run.newObject cls) fun o t =>
      t.past = .made (.construction cls) (.object o) :: s.past := by
  let o : Object := ⟨s.machine.fields.size, cls⟩
  let n : Machine := { s.machine with fields := s.machine.fields.push Table.empty }
  have hhas : ∀ cell, s.machine.Has cell → n.Has cell := by
    rintro (address | ident) hcell
    · exact hcell
    · simpa [n, Machine.Has] using Nat.lt_succ_of_lt hcell
  have hnew : ∀ other w, .made other w ∈ s.past → (Value.object o).same w = false := by
    intro other w hmade
    have hissued := hs.issued other w hmade
    cases w with
    | object p => simpa [Value.same] using (show p.ident < o.ident from hissued).ne'
    | _ => rfl
  have hlaw : (Entry.made (.construction cls) (.object o)).Law s.past :=
    ⟨⟨o, rfl, rfl⟩, hnew, fun part hpart => (show part = _ from hpart) ▸ hcls⟩
  have hsound := hs.made (n := n) hlaw (fun _ => Machine.contents_newObject) (Nat.le_refl _) hhas
    (by simp [n, o, Machine.Issued, Machine.Has])
  exact Tells.ok (t := ⟨n, _⟩) ⟨List.suffix_cons _ _, hhas⟩ hsound rfl

lemma newFrame {bindings : List (String × Value)} (hs : s.Sound)
    (hbindings : ∀ binding ∈ bindings, binding.2.Stems s.past) :
    Follows s (newFrame bindings) (Run.newFrame (.ofList bindings)) fun address t =>
      t.past = Entry.puts address bindings ++ s.past ∧ t.machine.Has (.frame address) := by
  have hsound := hs.newFrame hbindings
  refine Tells.ok (t := ⟨{ s.machine with frames := s.machine.frames.push (.ofList bindings) }, _⟩)
    ⟨List.suffix_append _ _, ?_⟩ hsound ⟨rfl, by simp [Machine.Has]⟩
  rintro (address | ident) hcell
  · simpa [Machine.Has] using Nat.lt_succ_of_lt hcell
  · exact hcell

lemma put {cell : Cell} {v : Value} (hs : s.Sound) (hcell : s.machine.Has cell) (name : String)
    (hv : v.Stems s.past) :
    Follows s (put cell name v) (modify fun m => m.put cell name v) fun _ t =>
      t.past = .put cell name v :: s.past :=
  Tells.ok (t := ⟨s.machine.put cell name v, _⟩)
    ⟨List.suffix_cons _ _, fun _ => (Machine.has_put name).mpr⟩ (hs.put hcell name hv) rfl

/-- A name that is looked for in a cell: if it is found there, the chronicle knows where it came from. -/
lemma find? {cell : Cell} {name : String} {f : Option Value → Chronicle α} (hs : s.Sound)
    (hnone : (s.machine.contents cell).find? name = none → Follows s (f none) y Q)
    (hsome : ∀ v, (s.machine.contents cell).find? name = some v → (s.add (.got cell name v)).Sound →
      Follows (s.add (.got cell name v)) (f (some v)) y Q) :
    Follows s (find? cell name >>= f) y Q := by
  cases hfind : (s.machine.contents cell).find? name with
  | none =>
      have hrun : (Chronicle.find? cell name >>= f) s = f none s := by
        simp only [Chronicle.find?, Bind.bind, EStateM.bind, get, getThe, MonadStateOf.get, EStateM.get,
          hfind]
        rfl
      unfold Follows
      rw [hrun]
      exact hnone hfind
  | some v =>
      have hrun : (Chronicle.find? cell name >>= f) s = f (some v) (s.add (.got cell name v)) := by
        simp only [Chronicle.find?, Bind.bind, EStateM.bind, get, getThe, MonadStateOf.get, EStateM.get,
          hfind]
        rfl
      have hlaw : (Entry.got cell name v).Law s.past := (hs.memory cell name).symm.trans hfind
      unfold Follows
      rw [hrun]
      exact after (.add s _) (hsome v hfind (hs.add trivial hlaw))

end Chronicle.Follows

/-! ## Quiet operations -/

namespace Run.Quiet

variable {α β : Type} {P : α → Prop} {R : β → Prop} {y : Run α} {f : α → Run β}

lemma pure {a : α} (h : P a) : Quiet P (pure a : Run α) := fun m => ⟨.refl m, h⟩

lemma throw (signal : Signal) : Quiet P (throw signal : Run α) := fun m => .refl m

lemma fail (line : Nat) (cause : Cause) : Quiet P (Run.fail line cause : Run α) := throw _

lemma bind (hy : y.Quiet P) (hf : ∀ a, P a → (f a).Quiet R) : Quiet R (y >>= f) := by
  intro m
  have h := hy m
  simp only [Bind.bind, EStateM.bind]
  cases hrun : y m with
  | error signal n =>
      rw [hrun] at h
      exact h
  | ok a n =>
      rw [hrun] at h
      have h' := hf a h.2 n
      dsimp only at h' ⊢
      cases hrest : f a n with
      | ok b k =>
          rw [hrest] at h'
          exact ⟨h.1.trans h'.1, h'.2⟩
      | error signal k =>
          rw [hrest] at h'
          exact h.1.trans h'

lemma get_bind {f : Machine → Run β} (h : ∀ m, (f m).Quiet R) : Quiet R (get >>= f) :=
  bind (P := fun _ => True) (fun m => ⟨.refl m, trivial⟩) fun m _ => h m

/-- A change of the machine. -/
lemma modifyGet {g : Machine → α × Machine} (h : ∀ m : Machine, m.SameCells (g m).2 ∧ P (g m).1) :
    Quiet P (modifyGet g : Run α) := h

lemma orFail (line : Nat) (result : Except Cause α) :
    Quiet (fun a => result = .ok a) (Run.orFail line result) := by
  cases result with
  | ok a => exact pure rfl
  | error cause => exact fail line cause

lemma write (text : String) : Quiet (fun _ => True) (Run.write text) :=
  modifyGet fun _ => ⟨⟨rfl, rfl, rfl⟩, trivial⟩

lemma pushCall (call : CallRecord) : Quiet (fun _ => True) (Run.pushCall call) :=
  modifyGet fun _ => ⟨⟨rfl, rfl, rfl⟩, trivial⟩

lemma popCall : Quiet (fun _ => True) Run.popCall := modifyGet fun _ => ⟨⟨rfl, rfl, rfl⟩, trivial⟩

lemma note (text : Machine → String) : Quiet (fun _ => True) (Run.note text) := by
  refine modifyGet fun m => ⟨?_, trivial⟩
  dsimp only
  split <;> exact ⟨rfl, rfl, rfl⟩

lemma begin (callable : Callable) (args : List Value) (line : Nat) :
    Quiet (fun _ => True) (callable.begin args line) := by
  refine .bind (note _) fun _ _ => .get_bind fun m => ?_
  split
  · exact fail _ _
  · exact pure trivial

/-- Native routines make only literal values. -/
lemma invokeNative (n : Native) (args : List Value) (line : Nat) :
    Quiet (fun v => ∃ literal, v = Value.scalar literal) (Interp.invokeNative n args line) := by
  refine .bind (P := Native.Gives)
    (modifyGet fun m => ⟨⟨rfl, rfl, rfl⟩, n.gives_apply args m.console⟩) fun result hresult => ?_
  split
  · exact pure hresult
  · exact fail _ _
  · exact throw _

lemma exitWith (line : Nat) (v : Value) : Quiet (fun _ => False) (Interp.exitWith line v) := by
  unfold Interp.exitWith
  split
  · split
    · exact .bind (note _) fun _ _ => throw _
    · exact fail _ _
  · exact fail _ _

end Run.Quiet

end KScript

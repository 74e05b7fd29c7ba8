import KScript.Proofs.Alike.Values

/-!
# Runs that are alike

Machines are alike frame by frame and field by field.  Two computations are alike from such machines on if
they end in the same way, in machines that are alike again, with related results (`Alike`); the rules of
`Alike` follow the operations of `Run`.
-/

namespace KScript

/-- What two runs are compared up to. -/
structure Pairing extends Likeness where
  /-- What the second run had written before. -/
  written : String
  /-- The debug lines that the second run had kept before, latest first. -/
  noted : List String

instance : Coe Pairing Likeness := ⟨Pairing.toLikeness⟩

variable {L : Pairing} {W W' : List Bool}

/-! ## Machines -/

/-- A call without the code of routines. -/
def CallRecord.outline (call : CallRecord) : CallRecord := ⟨call.name, Value.outlineAll call.args⟩

/-- The machines are alike: their frames are, under the marks `W`, and their fields; and the second run has
written and kept what the first has, after what it had before. -/
structure Machine.Like (L : Pairing) (W : List Bool) (m m' : Machine) : Prop where
  size : m.frames.size = W.length
  size' : m'.frames.size = W.length
  global : W[Machine.globalAddress]? = some false
  frames : ∀ address b, W[address]? = some b →
    (m.frames.frame address).Like L b (Value.Like L W) (m'.frames.frame address)
  fieldsSize : m'.fields.size = m.fields.size
  fields : ∀ ident, (m.fieldsOf ident).Like L false (Value.Like L W) (m'.fieldsOf ident)
  fresh : m'.fresh = m.fresh
  calls : m'.calls.map CallRecord.outline = m.calls.map CallRecord.outline
  console : m'.console = { m.console with output := L.written ++ m.console.output }
  tracing : m'.tracing = m.tracing
  notes : m'.notes = m.notes ++ L.noted

namespace Machine.Like

variable {m m' : Machine}

lemma fieldNames (h : m.Like L W m') : m'.fieldNames = m.fieldNames := by
  funext ident
  exact (h.fields ident).keys

lemma newFrame (h : m.Like L W m') {b : Bool} {bindings bindings' : Table Value}
    (hnew : bindings.Like L b (Value.Like L W) bindings') :
    Machine.Like L (W ++ [b]) { m with frames := m.frames.push bindings }
      { m' with frames := m'.frames.push bindings' } := by
  have hle : W <+: W ++ [b] := List.prefix_append _ _
  have hold : ∀ {address : Address}, address < W.length → (W ++ [b])[address]? = W[address]? :=
    fun hlt => List.getElem?_append_left hlt
  refine { h with
    size := by simp [h.size]
    size' := by simp [h.size']
    global := (hold (List.getElem?_eq_some_iff.mp h.global).1).trans h.global
    frames := ?_
    fields := fun ident => (h.fields ident).imp fun _ _ hv => hv.mono hle }
  intro address mark hmark
  dsimp only
  rw [Frames.frame_push, Frames.frame_push, h.size, h.size']
  by_cases heq : address = W.length
  · rw [heq, List.getElem?_concat_length] at hmark
    cases hmark
    rw [if_pos heq, if_pos heq]
    exact hnew.imp fun _ _ hv => hv.mono hle
  · have hlt := (List.getElem?_eq_some_iff.mp hmark).1
    rw [List.length_append, List.length_singleton] at hlt
    rw [hold (Nat.lt_of_le_of_ne (Nat.lt_succ_iff.mp hlt) heq)] at hmark
    rw [if_neg heq, if_neg heq]
    exact (h.frames address mark hmark).imp fun _ _ hv => hv.mono hle

lemma define (h : m.Like L W m') {target : Address} {b : Bool} (hmark : W[target]? = some b)
    (name : String) {v v' : Value} (hv : v.Like L W v') :
    Machine.Like L W { m with frames := m.frames.define target name v }
      { m' with frames := m'.frames.define target (L.perm b name) v' } := by
  refine { h with size := by simp [h.size], size' := by simp [h.size'], frames := ?_ }
  intro address mark haddress
  dsimp only
  rw [Frames.frame_define, Frames.frame_define, h.size, h.size']
  by_cases heq : target = address ∧ address < W.length
  · rw [if_pos heq, if_pos heq]
    obtain ⟨rfl, -⟩ := heq
    rw [hmark] at haddress
    cases haddress
    exact (h.frames target b hmark).insert name hv
  · rw [if_neg heq, if_neg heq]
    exact h.frames address mark haddress

lemma newObject (h : m.Like L W m') :
    Machine.Like L W { m with fields := m.fields.push Table.empty }
      { m' with fields := m'.fields.push Table.empty } := by
  refine { h with fieldsSize := by simp [h.fieldsSize], fields := ?_ }
  intro ident
  have hold := h.fields ident
  unfold Machine.fieldsOf at hold ⊢
  dsimp only
  rw [Array.getElem?_push, Array.getElem?_push, h.fieldsSize]
  split
  · exact Table.Like.empty
  · exact hold

lemma putField (h : m.Like L W m') (target : Nat) (name : String) {v v' : Value}
    (hv : v.Like L W v') :
    Machine.Like L W { m with fields := m.fields.modify target (·.insert name v) }
      { m' with fields := m'.fields.modify target (·.insert name v') } := by
  refine { h with fieldsSize := by simp [h.fieldsSize], fields := ?_ }
  intro ident
  have hold := h.fields ident
  unfold Machine.fieldsOf at hold ⊢
  dsimp only
  rw [Array.getElem?_modify, Array.getElem?_modify]
  by_cases heq : target = ident
  · subst heq
    rw [if_pos rfl, if_pos rfl]
    by_cases hlt : target < m.fields.size
    · have hlt' : target < m'.fields.size := h.fieldsSize ▸ hlt
      simp only [hlt, hlt', getElem?_pos, Option.map_some, Option.getD_some] at hold ⊢
      exact hold.insert name hv
    · have hlt' : ¬target < m'.fields.size := h.fieldsSize ▸ hlt
      simp only [hlt, hlt', not_false_eq_true, getElem?_neg, Option.map_none]
      exact Table.Like.empty
  · rw [if_neg heq, if_neg heq]
    exact hold

end Machine.Like

/-! ## Runs -/

/-- The lines are those of tokens that stand for each other. -/
def Likeness.SameLine (L : Likeness) (line line' : Nat) : Prop :=
  ∃ t t', L.Same t t' ∧ t.line = line ∧ t'.line = line'

lemma Likeness.sameLine {L : Likeness} {t t' : Token} (h : L.Same t t') : L.SameLine t.line t'.line :=
  ⟨t, t', h, rfl, rfl⟩

/-- The signals are alike.  Breaking down over a name tells the name, which may have been exchanged. -/
inductive Signal.Like (L : Likeness) : Signal → Signal → Prop where
  | failure {line line' : Nat} (h : L.SameLine line line') (cause : Cause) :
      Like L (.failure line cause) (.failure line' cause)
  | exit (code : Int) : Like L (.exit code) (.exit code)
  | crash (crash : Crash) : Like L (.crash crash) (.crash crash)
  | unbound (marked : Bool) (name : String) :
      Like L (.crash (.unbound name)) (.crash (.unbound (L.perm marked name)))
  | exhausted : Like L .exhausted .exhausted

variable {α β : Type} {m m' : Machine}

/-- The two runs end alike: the frames of the first have only grown since `m`, and the results are related
under the marks of the frames that there are then. -/
def Pairing.Ends (L : Pairing) (W : List Bool) (m : Machine) (Q : List Bool → α → α → Prop) :
    EStateM.Result Signal Machine α → EStateM.Result Signal Machine α → Prop
  | .ok a next, .ok a' next' =>
    ∃ W', W <+: W' ∧ next.Like L W' next' ∧ m.frames.Le next.frames ∧ Q W' a a'
  | .error s next, .error s' next' => ∃ W', W <+: W' ∧ next.Like L W' next' ∧ s.Like L s'
  | _, _ => False

/-- Runs that end alike from later machines on end alike. -/
lemma Pairing.Ends.trans {Q : List Bool → α → α → Prop} {r r' : EStateM.Result Signal Machine α}
    {next : Machine} (h : L.Ends W' next Q r r') (hw : W <+: W') (hle : m.frames.Le next.frames) :
    L.Ends W m Q r r' := by
  match r, r', h with
  | .ok a last, .ok a' last', ⟨W₁, hw₁, hm₁, hle₁, hq⟩ =>
      exact ⟨W₁, hw.trans hw₁, hm₁, hle.trans hle₁, hq⟩
  | .error s last, .error s' last', ⟨W₁, hw₁, hm₁, hs⟩ => exact ⟨W₁, hw.trans hw₁, hm₁, hs⟩

/-- The computations are alike from the machines `m` and `m'` on. -/
def Alike (L : Pairing) (W : List Bool) (m m' : Machine) (x x' : Run α)
    (Q : List Bool → α → α → Prop) : Prop :=
  L.Ends W m Q (x m) (x' m')

namespace Alike

variable {x x' : Run α} {Q : List Bool → α → α → Prop}

lemma ok {a a' : α} {next next' : Machine} (hrun : x m = .ok a next) (hrun' : x' m' = .ok a' next')
    (hw : W <+: W') (hm : next.Like L W' next') (hle : m.frames.Le next.frames) (hq : Q W' a a') :
    Alike L W m m' x x' Q := by
  unfold Alike
  rw [hrun, hrun']
  exact ⟨W', hw, hm, hle, hq⟩

lemma error {s s' : Signal} (hrun : x m = .error s m) (hrun' : x' m' = .error s' m')
    (hm : m.Like L W m') (hs : s.Like L s') : Alike L W m m' x x' Q := by
  unfold Alike
  rw [hrun, hrun']
  exact ⟨W, List.prefix_rfl, hm, hs⟩

lemma pure {a a' : α} (hm : m.Like L W m') (hq : Q W a a') :
    Alike L W m m' (Pure.pure a) (Pure.pure a') Q :=
  ok rfl rfl List.prefix_rfl hm (Frames.Le.refl _) hq

/-- One computation after the other. -/
lemma bind {f f' : α → Run β} {R : List Bool → β → β → Prop} (h : Alike L W m m' x x' Q)
    (hrest : ∀ W' next next' a a', W <+: W' → next.Like L W' next' → m.frames.Le next.frames →
      Q W' a a' → Alike L W' next next' (f a) (f' a') R) :
    Alike L W m m' (x >>= f) (x' >>= f') R := by
  unfold Alike at h ⊢
  cases hx : x m with
  | error s next =>
      cases hx' : x' m' with
      | error s' next' =>
          rw [hx, hx'] at h
          rw [Run.bind_of_error hx, Run.bind_of_error hx']
          exact h
      | ok a' next' =>
          rw [hx, hx'] at h
          exact h.elim
  | ok a next =>
      cases hx' : x' m' with
      | error s' next' =>
          rw [hx, hx'] at h
          exact h.elim
      | ok a' next' =>
          rw [hx, hx'] at h
          rw [Run.bind_of_ok hx, Run.bind_of_ok hx']
          obtain ⟨W₁, hw₁, hm₁, hle₁, hq⟩ := h
          exact Pairing.Ends.trans (hrest W₁ next next' a a' hw₁ hm₁ hle₁ hq) hw₁ hle₁

/-- A look at the machines. -/
lemma get_bind {f f' : Machine → Run β} {R : List Bool → β → β → Prop}
    (h : Alike L W m m' (f m) (f' m') R) : Alike L W m m' (get >>= f) (get >>= f') R := h

/-! ## Operations of the machine -/

lemma fail (hm : m.Like L W m') {line line' : Nat} (hline : L.SameLine line line') (cause : Cause) :
    Alike L W m m' (Run.fail line cause) (Run.fail line' cause) Q :=
  error rfl rfl hm (.failure hline cause)

/-- A literal value, or a failure. -/
lemma orFail (hm : m.Like L W m') {line line' : Nat} (hline : L.SameLine line line')
    {result : Except Cause Value} (h : ∀ v, result = .ok v → ∃ literal, v = .scalar literal) :
    Alike L W m m' (Run.orFail line result) (Run.orFail line' result) fun W v v' => v.Like L W v' := by
  cases result with
  | ok v =>
      obtain ⟨literal, rfl⟩ := h v rfl
      exact pure hm rfl
  | error cause => exact fail hm hline cause

lemma newIdent (hm : m.Like L W m') :
    Alike L W m m' Run.newIdent Run.newIdent fun _ ident ident' => ident' = ident := by
  have hnext : Machine.Like L W { m with fresh := m.fresh + 1 }
      { m' with fresh := m'.fresh + 1 } :=
    { hm with fresh := congrArg (· + 1) hm.fresh }
  exact ok rfl rfl List.prefix_rfl hnext (Frames.Le.refl _) hm.fresh

lemma write (hm : m.Like L W m') {text text' : String} (h : text' = text) :
    Alike L W m m' (Run.write text) (Run.write text') fun _ _ _ => True := by
  subst h
  have hnext : Machine.Like L W
      { m with console := { m.console with output := m.console.output ++ text' } }
      { m' with console := { m'.console with output := m'.console.output ++ text' } } :=
    { hm with console := by simp [hm.console, String.append_assoc] }
  exact ok rfl rfl List.prefix_rfl hnext (Frames.Le.refl _) trivial

lemma note (hm : m.Like L W m') {text text' : Machine → String} (h : text' m' = text m) :
    Alike L W m m' (Run.note text) (Run.note text') fun _ _ _ => True := by
  cases htracing : m.tracing with
  | false =>
      have hrun : Run.note text m = .ok () m := by
        show EStateM.Result.ok () (if m.tracing then _ else m) = _
        rw [htracing]
        rfl
      have hrun' : Run.note text' m' = .ok () m' := by
        show EStateM.Result.ok () (if m'.tracing then _ else m') = _
        rw [hm.tracing, htracing]
        rfl
      exact ok hrun hrun' List.prefix_rfl hm (Frames.Le.refl _) trivial
  | true =>
      have hrun : Run.note text m = .ok () { m with notes := ("[DBG] " ++ text m) :: m.notes } := by
        show EStateM.Result.ok () (if m.tracing then _ else m) = _
        rw [htracing]
        rfl
      have hrun' : Run.note text' m'
          = .ok () { m' with notes := ("[DBG] " ++ text m) :: m'.notes } := by
        show EStateM.Result.ok () (if m'.tracing then _ else m') = _
        rw [hm.tracing, htracing, h]
        rfl
      refine ok hrun hrun' List.prefix_rfl ?_ (Frames.Le.refl _) trivial
      exact { hm with notes := by simp [hm.notes] }

lemma pushCall (hm : m.Like L W m') {call call' : CallRecord} (h : call'.outline = call.outline) :
    Alike L W m m' (Run.pushCall call) (Run.pushCall call') fun _ _ _ => True := by
  have hnext : Machine.Like L W { m with calls := call :: m.calls }
      { m' with calls := call' :: m'.calls } :=
    { hm with calls := by simp [h, hm.calls] }
  exact ok rfl rfl List.prefix_rfl hnext (Frames.Le.refl _) trivial

lemma popCall (hm : m.Like L W m') :
    Alike L W m m' Run.popCall Run.popCall fun _ _ _ => True := by
  have hnext : Machine.Like L W { m with calls := m.calls.tail }
      { m' with calls := m'.calls.tail } :=
    { hm with calls := by rw [List.map_tail, List.map_tail, hm.calls] }
  exact ok rfl rfl List.prefix_rfl hnext (Frames.Le.refl _) trivial

/-- New frames of one mark. -/
lemma newFrame (hm : m.Like L W m') {b : Bool} {bindings bindings' : Table Value}
    (h : bindings.Like L b (Value.Like L W) bindings') :
    Alike L W m m' (Run.newFrame bindings) (Run.newFrame bindings') fun W' address address' =>
      address' = address ∧ W'[address]? = some b := by
  refine ok rfl rfl (List.prefix_append _ _) (hm.newFrame h) (Frames.Le.push _ _) ⟨?_, ?_⟩
  · rw [hm.size, hm.size']
  · rw [hm.size, List.getElem?_concat_length]

lemma newObject (hm : m.Like L W m') {cls cls' : ClassValue} (h : cls.Like L W cls') :
    Alike L W m m' (Run.newObject cls) (Run.newObject cls') fun W o o' => o.Like L W o' :=
  ok rfl rfl List.prefix_rfl hm.newObject (Frames.Le.refl _) ⟨hm.fieldsSize, h⟩

lemma putField (hm : m.Like L W m') {o o' : Object} (ho : o.Like L W o') (name : String)
    {v v' : Value} (hv : v.Like L W v') :
    Alike L W m m' (Run.putField o name v) (Run.putField o' name v') fun _ _ _ => True := by
  obtain ⟨ident, cls⟩ := o
  obtain ⟨ident', cls'⟩ := o'
  obtain rfl : ident' = ident := ho.ident
  exact ok rfl rfl List.prefix_rfl (hm.putField ident' name hv) (Frames.Le.refl _) trivial

/-- Binding a name in one frame. -/
lemma defineAt (hm : m.Like L W m') {address : Address} {b : Bool} (hmark : W[address]? = some b)
    {name name' : String} (hname : name' = L.perm b name) {v v' : Value} (hv : v.Like L W v') :
    Alike L W m m' (modify fun m => { m with frames := m.frames.define address name v })
      (modify fun m => { m with frames := m.frames.define address name' v' }) fun _ _ _ => True := by
  subst hname
  exact ok rfl rfl List.prefix_rfl (hm.define hmark name hv) (Frames.Le.define _ _ _ _) trivial

/-- Binding a name in the innermost frame. -/
lemma define (hm : m.Like L W m') {env : Env} {marks : List Bool} (henv : Env.Like W env marks)
    {name name' : String} (hname : name' = L.perm (marks.headD false) name) {v v' : Value}
    (hv : v.Like L W v') :
    Alike L W m m' (Run.define env name v) (Run.define env name' v') fun _ _ _ => True := by
  cases env with
  | nil => exact pure hm trivial
  | cons address outer => exact defineAt hm henv.head hname hv

/-- Binding a name in the innermost frame, which has it from then on. -/
lemma define_bind (hm : m.Like L W m') {env : Env} {marks : List Bool} (henv : Env.Like W env marks)
    {name name' : String} (hname : name' = L.perm (marks.headD false) name) {v v' : Value}
    (hv : v.Like L W v') {f f' : Unit → Run β} {R : List Bool → β → β → Prop}
    (hrest : ∀ next next', next.Like L W next' →
      (∀ address ∈ env.head?, (next.frames.frame address).contains name = true) →
      Alike L W next next' (f ()) (f' ()) R) :
    Alike L W m m' (Run.define env name v >>= f) (Run.define env name' v' >>= f') R := by
  cases env with
  | nil => exact hrest m m' hm (by simp)
  | cons address outer =>
      subst hname
      have hlt : address < m.frames.size := by
        rw [hm.size]
        exact (List.getElem?_eq_some_iff.mp henv.head).1
      have hbound : ((m.frames.define address name v).frame address).contains name = true := by
        rw [Frames.frame_define, if_pos ⟨rfl, hlt⟩, Table.contains_insert]
        simp
      have hend := hrest _ _ (hm.define henv.head name hv) (by simpa using hbound)
      exact Pairing.Ends.trans hend List.prefix_rfl (Frames.Le.define _ _ _ _)

end Alike

end KScript

import KScript.Proofs.Rename.Programs

/-!
# A renamed program is like the program

Where the new name does not occur, replacing the old one in a scope is exchanging the two, so a renamed
program is like the program it was made from.
-/

namespace KScript

variable {L : Likeness} {marks : List Bool}

lemma Token.renamed_eq {t : Token} (h : t.lexeme ≠ L.second) (b : Bool) :
    t.renamed L.first L.second b = L.token b t := by
  unfold Token.renamed Likeness.token Likeness.perm
  cases b with
  | false => simp
  | true =>
      by_cases hfirst : t.lexeme = L.first
      · simp [hfirst]
      · simp [hfirst, Equiv.swap_apply_of_ne_of_ne hfirst h]

lemma Token.same_renamed (hsame : ∀ t : Token, L.Same t t) {t : Token} (h : t.lexeme ≠ L.second)
    (b : Bool) : L.Same (L.token b t) (t.renamed L.first L.second b) := by
  rw [Token.renamed_eq h]
  exact hsame _

lemma Reference.like_renamed (hsame : ∀ t : Token, L.Same t t) {ref : Reference Depth}
    (h : ref.name.lexeme ≠ L.second) : ref.Like L marks (ref.renamed L.first L.second marks) :=
  ⟨rfl, Token.same_renamed hsame h _⟩

lemma Token.same_renamed_params (hsame : ∀ t : Token, L.Same t t) (b : Bool) {params : List Token}
    (h : L.second ∉ params.map (·.lexeme)) :
    List.Forall₂ (fun p p' => L.Same (L.token b p) p') params
      (params.map (Token.renamed L.first L.second b)) := by
  induction params with
  | nil => exact .nil
  | cons p rest ih =>
      simp only [List.map_cons, List.mem_cons, not_or] at h
      exact .cons (Token.same_renamed hsame (Ne.symm h.1) b) (ih h.2)

mutual

lemma Expr.like_renamed (hsame : ∀ t : Token, L.Same t t) : ∀ {e : Expr Depth},
    L.second ∉ e.names → e.Like L marks (e.renamed L.first L.second marks)
  | .literal _, _ => rfl
  | .array items, h =>
      ⟨_, rfl, Expr.likeAll_renamed hsame (show L.second ∉ Expr.namesAll items from h)⟩
  | .grouping inner, h => ⟨_, rfl, Expr.like_renamed hsame (e := inner) h⟩
  | .unary op operand, h => ⟨_, _, rfl, hsame op, Expr.like_renamed hsame (e := operand) h⟩
  | .binary left op right, h | .logical left op right, h => by
      simp only [Expr.names, List.mem_append, not_or] at h
      exact ⟨_, _, _, rfl, Expr.like_renamed hsame h.1, hsame op, Expr.like_renamed hsame h.2⟩
  | .conditional condition yes no, h => by
      simp only [Expr.names, List.mem_append, not_or] at h
      exact ⟨_, _, _, rfl, Expr.like_renamed hsame h.1.1, Expr.like_renamed hsame h.1.2,
        Expr.like_renamed hsame h.2⟩
  | .variable ref, h => by
      simp only [Expr.names, List.mem_singleton] at h
      exact ⟨_, rfl, Reference.like_renamed hsame (Ne.symm h)⟩
  | .assign ref value, h => by
      simp only [Expr.names, List.mem_cons, not_or] at h
      exact ⟨_, _, rfl, Reference.like_renamed hsame (Ne.symm h.1), Expr.like_renamed hsame h.2⟩
  | .step direction ref, h => by
      simp only [Expr.names, List.mem_singleton] at h
      exact ⟨_, rfl, Reference.like_renamed hsame (Ne.symm h)⟩
  | .call callee paren args, h => by
      simp only [Expr.names, List.mem_append, not_or] at h
      exact ⟨_, _, _, rfl, Expr.like_renamed hsame h.1, hsame paren, Expr.likeAll_renamed hsame h.2⟩
  | .get object name inside, h =>
      ⟨_, _, rfl, Expr.like_renamed hsame (e := object) h, hsame name⟩
  | .set object name value inside, h => by
      simp only [Expr.names, List.mem_append, not_or] at h
      exact ⟨_, _, _, rfl, Expr.like_renamed hsame h.1, hsame name, Expr.like_renamed hsame h.2⟩
  | .receiver ref, h => by
      simp only [Expr.names, List.mem_singleton] at h
      exact ⟨_, rfl, Reference.like_renamed hsame (Ne.symm h)⟩
  | .inherited ref method, h => by
      simp only [Expr.names, List.mem_singleton] at h
      exact ⟨_, _, rfl, Reference.like_renamed hsame (Ne.symm h), hsame method⟩

lemma Expr.likeAll_renamed (hsame : ∀ t : Token, L.Same t t) : ∀ {es : List (Expr Depth)},
    L.second ∉ Expr.namesAll es → Expr.LikeAll L marks es (Expr.renamedAll L.first L.second marks es)
  | [], _ => rfl
  | e :: rest, h => by
      simp only [Expr.namesAll, List.mem_append, not_or] at h
      exact ⟨_, _, rfl, Expr.like_renamed hsame h.1, Expr.likeAll_renamed hsame h.2⟩

end

lemma Expr.likeOption_renamed (hsame : ∀ t : Token, L.Same t t) {e : Option (Expr Depth)}
    (h : L.second ∉ Expr.namesOption e) :
    Expr.LikeOption L marks e (e.map (Expr.renamed L.first L.second marks)) := by
  cases e with
  | none => rfl
  | some e => exact ⟨_, rfl, Expr.like_renamed hsame h⟩

lemma ForStart.like_renamed (hsame : ∀ t : Token, L.Same t t) {start : Option (ForStart Depth)}
    (h : L.second ∉ ForStart.names start) :
    ForStart.Like L marks start (start.map (ForStart.renamed L.first L.second marks)) := by
  match start, h with
  | none, _ => rfl
  | some (.var name value), h =>
      simp only [ForStart.names, List.mem_cons, not_or] at h
      exact ⟨_, _, rfl, Token.same_renamed hsame (Ne.symm h.1) _, Expr.likeOption_renamed hsame h.2⟩
  | some (.expr e), h => exact ⟨_, rfl, Expr.like_renamed hsame h⟩

/-- A name that stays is not exchanged. -/
lemma Token.perm_kept {name : Token} {b : Bool} (h : name.lexeme ≠ L.second)
    (hkept : b = true → name.lexeme ≠ L.first) : L.perm b name.lexeme = name.lexeme := by
  cases b with
  | false => rfl
  | true => exact L.perm_of_ne (hkept rfl) h true

mutual

lemma Stmt.Renamed.like (hsame : ∀ t : Token, L.Same t t) {marks : List Bool} :
    ∀ {s s' : Stmt Depth}, s.Renamed L.first L.second marks s' → L.second ∉ s.names →
      s.Like L marks s'
  | .expr e, _, rfl, h | .echo e, _, rfl, h => ⟨_, rfl, Expr.like_renamed hsame (e := e) h⟩
  | .var name value, _, rfl, h => by
      simp only [Stmt.names, List.mem_cons, not_or] at h
      exact ⟨_, _, rfl, Token.same_renamed hsame (Ne.symm h.1) _, Expr.likeOption_renamed hsame h.2⟩
  | .block body, _, ⟨b, body', rfl, hbody⟩, h =>
      ⟨b, body', rfl, Stmt.RenamedAll.like hsame hbody h⟩
  | .exit keyword code, _, rfl, h =>
      ⟨_, _, rfl, hsame keyword, Expr.like_renamed hsame (e := code) h⟩
  | .branch condition yes no, _, ⟨yes', no', rfl, hyes, hno⟩, h => by
      simp only [Stmt.names, List.mem_append, not_or] at h
      exact ⟨_, _, _, rfl, Expr.like_renamed hsame h.1.1, Stmt.Renamed.like hsame hyes h.1.2,
        Stmt.RenamedOption.like hsame hno h.2⟩
  | .loop condition body, _, ⟨body', rfl, hbody⟩, h => by
      simp only [Stmt.names, List.mem_append, not_or] at h
      exact ⟨_, _, rfl, Expr.like_renamed hsame h.1, Stmt.Renamed.like hsame hbody h.2⟩
  | .forLoop start condition after body, _, ⟨b, body', rfl, hbody⟩, h => by
      simp only [Stmt.names, List.mem_append, not_or] at h
      exact ⟨b, _, _, _, _, rfl, ForStart.like_renamed hsame h.1.1.1,
        Expr.like_renamed hsame h.1.1.2, Expr.likeOption_renamed hsame h.1.2,
        Stmt.Renamed.like hsame hbody h.2⟩
  | .step direction ref, _, rfl, h => by
      simp only [Stmt.names, List.mem_singleton] at h
      exact ⟨_, rfl, Reference.like_renamed hsame (Ne.symm h)⟩
  | .jump j keyword, _, rfl, _ => ⟨_, rfl⟩
  | .routine ⟨name, params, body⟩, _, ⟨b, body', rfl, hkept, hbody⟩, h => by
      simp only [Stmt.names, List.mem_cons, List.mem_append, not_or] at h
      exact ⟨b, _, _, _, rfl, Token.perm_kept (Ne.symm h.1) hkept, hsame name,
        Token.same_renamed_params hsame b h.2.1, Stmt.RenamedAll.like hsame hbody h.2.2⟩
  | .giveBack keyword value, _, rfl, h =>
      ⟨_, _, rfl, Expr.likeOption_renamed hsame (e := value) h⟩
  | .classDecl name superclass methods statics getters setters, _,
      ⟨_, _, _, _, rfl, hkept, hmethods, hstatics, hgetters, hsetters⟩, h => by
      simp only [Stmt.names, List.mem_cons, List.mem_append, not_or] at h
      obtain ⟨hname, ⟨⟨⟨hsuper, hm⟩, hs⟩, hg⟩, ht⟩ := h
      have hsuperclass : Reference.LikeOption L marks superclass
          (superclass.map (Reference.renamed L.first L.second marks)) := by
        cases superclass with
        | none => rfl
        | some ref =>
            simp only [Option.map_some, Option.toList_some, List.mem_singleton] at hsuper
            exact ⟨_, rfl, Reference.like_renamed hsame (Ne.symm hsuper)⟩
      exact ⟨_, _, _, _, _, _, rfl, Token.perm_kept (Ne.symm hname) hkept, hsame name, hsuperclass,
        Stmt.RenamedRoutines.like hsame hmethods hm, Stmt.RenamedRoutines.like hsame hstatics hs,
        Stmt.RenamedRoutines.like hsame hgetters hg, Stmt.RenamedRoutines.like hsame hsetters ht⟩
termination_by structural s => s

lemma Stmt.RenamedAll.like (hsame : ∀ t : Token, L.Same t t) {marks : List Bool} :
    ∀ {ss ss' : List (Stmt Depth)}, Stmt.RenamedAll L.first L.second marks ss ss' →
      L.second ∉ Stmt.namesAll ss → Stmt.LikeAll L marks ss ss'
  | [], _, rfl, _ => rfl
  | _ :: rest, _, ⟨s', rest', rfl, hs, hrest⟩, h => by
      simp only [Stmt.namesAll, List.mem_append, not_or] at h
      exact ⟨_, _, rfl, Stmt.Renamed.like hsame hs h.1, Stmt.RenamedAll.like hsame hrest h.2⟩

lemma Stmt.RenamedOption.like (hsame : ∀ t : Token, L.Same t t) {marks : List Bool} :
    ∀ {s s' : Option (Stmt Depth)}, Stmt.RenamedOption L.first L.second marks s s' →
      L.second ∉ Stmt.namesOption s → Stmt.LikeOption L marks s s'
  | none, _, rfl, _ => rfl
  | some _, _, ⟨t, rfl, ht⟩, h => ⟨t, rfl, Stmt.Renamed.like hsame ht h⟩

lemma Stmt.RenamedRoutines.like (hsame : ∀ t : Token, L.Same t t) {marks : List Bool} :
    ∀ {rs rs' : List (Routine (Stmt Depth))}, Stmt.RenamedRoutines L.first L.second marks rs rs' →
      L.second ∉ Stmt.namesRoutines rs → Stmt.LikeRoutines L marks rs rs'
  | [], _, rfl, _ => rfl
  | ⟨name, params, body⟩ :: rest, _, ⟨b, body', rest', rfl, hbody, hrest⟩, h => by
      simp only [Stmt.namesRoutines, List.mem_append, not_or] at h
      exact ⟨b, _, _, _, _, rfl, hsame name, Token.same_renamed_params hsame b h.1.1,
        Stmt.RenamedAll.like hsame hbody h.1.2, Stmt.RenamedRoutines.like hsame hrest h.2⟩

end

end KScript

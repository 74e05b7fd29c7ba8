import KScript.Proofs.Token.Lexemes

/-!
# The next piece of a text

What a text begins with, said without a scanner: a blank, a comment, a fragment that is at fault or a token
(`Next`).  A token is the longest lexeme that the text begins with, and it is found only where neither a
comment nor a fault begins.  The scanner finds such a piece in front of every text (`classify_next`), and
there is never more than one (`Next.unique`).
-/

namespace KScript

open Scan

/-! ## Pieces -/

/-- The characters that stand between lexemes. -/
def blanks : List Char := [' ', '\t', '\r', '\n']

/-- The text is at fault where `rest` follows it: a single character with which nothing begins, the mark of
a base without a digit of that base, or a text in quotes that does not end. -/
inductive Faulty : Complaint → List Char → List Char → Prop where
  | character {c : Char} {rest : List Char} (hblank : c ∉ blanks)
      (hlexeme : ∀ more kind literal, ¬Lexeme (c :: more) kind literal) :
      Faulty .unexpectedCharacter [c] rest
  | base {mark : Char} {base : Nat} {isBaseDigit : Char → Bool} {rest : List Char}
      (hbase : (mark, base, isBaseDigit) ∈ bases) (hrest : ∀ d ∈ rest.head?, isBaseDigit d = false) :
      Faulty .missingBaseDigit ['0', mark] rest
  | string {quote : Char} {body : List Char} (hquote : quote ∈ quotes) (hbody : quote ∉ body) :
      Faulty .unterminatedString (quote :: body) []

/-- A comment begins here. -/
def CommentAt (whole : List Char) : Prop := ['/', '/'] <+: whole

/-- Something at fault begins here. -/
def FaultAt (whole : List Char) : Prop :=
  ∃ complaint text rest, text ++ rest = whole ∧ Faulty complaint text rest

/-- No lexeme that the whole text begins with is longer. -/
def Longest (text rest : List Char) : Prop :=
  ∀ other kind literal, Lexeme other kind literal → other <+: text ++ rest →
    other.length ≤ text.length

/-- The piece is what the text begins with, and `rest` follows. -/
inductive Next : Piece → List Char → List Char → Prop where
  | blank {c : Char} {rest : List Char} (h : c ∈ blanks) : Next .blank [c] rest
  /-- A comment reaches up to the end of its line. -/
  | comment {body rest : List Char} (hbody : '\n' ∉ body) (hrest : ∀ c ∈ rest.head?, c = '\n') :
      Next .comment ('/' :: '/' :: body) rest
  | fault {complaint : Complaint} {text rest : List Char} (h : Faulty complaint text rest) :
      Next (.fault complaint) text rest
  | token {kind : Kind} {literal : Option Literal} {text rest : List Char}
      (hlexeme : Lexeme text kind literal) (hlongest : Longest text rest)
      (hcomment : ¬CommentAt (text ++ rest)) (hfault : ¬FaultAt (text ++ rest)) :
      Next (.token kind literal) text rest

@[simp] lemma commentAt_cons {c : Char} {rest : List Char} :
    CommentAt (c :: rest) ↔ '/' = c ∧ ['/'] <+: rest := List.cons_prefix_cons

/-! ## Fragments at fault -/

/-- Where a lexeme can begin, only a base without digits or a text without an end is at fault. -/
lemma not_faultAt {c : Char} {rest more : List Char} {kind : Kind} {literal : Option Literal}
    (hlexeme : Lexeme (c :: more) kind literal)
    (hbase : ∀ entry ∈ bases, ∀ after, c = '0' → rest = entry.1 :: after →
      ∃ d ∈ after.head?, entry.2.2 d = true)
    (hquote : c ∈ quotes → c ∈ rest) : ¬FaultAt (c :: rest) := by
  rintro ⟨complaint, text, after, heq, h⟩
  cases h with
  | character hblank hno =>
      simp only [List.cons_append, List.nil_append, List.cons.injEq] at heq
      obtain ⟨rfl, rfl⟩ := heq
      exact hno more kind literal hlexeme
  | base hentry hrest =>
      simp only [List.cons_append, List.nil_append, List.cons.injEq] at heq
      obtain ⟨rfl, rfl⟩ := heq
      obtain ⟨d, hd, hdigit⟩ := hbase _ hentry after rfl rfl
      simp [hrest d hd] at hdigit
  | string hq hbody =>
      simp only [List.append_nil, List.cons.injEq] at heq
      obtain ⟨rfl, rfl⟩ := heq
      exact hbody (hquote hq)

/-- The same where neither a numeral nor a text in quotes begins. -/
lemma not_faultAt_of_class {c : Char} {rest more : List Char} {kind : Kind} {literal : Option Literal}
    (hlexeme : Lexeme (c :: more) kind literal) (hdigit : c.isDigit = false) (hquote : c ∉ quotes) :
    ¬FaultAt (c :: rest) := by
  refine not_faultAt hlexeme ?_ fun hq => absurd hq hquote
  rintro entry - after rfl
  exact absurd hdigit (by decide)

/-! ## Runs of characters -/

section Runs

variable {p : Char → Bool} {rest : List Char}

lemma take_takeWhile (p : Char → Bool) (rest : List Char) :
    rest.take (rest.takeWhile p).length = rest.takeWhile p :=
  (List.prefix_iff_eq_take.mp ( List.takeWhile_prefix p)).symm

lemma drop_takeWhile (p : Char → Bool) (rest : List Char) :
    rest.drop (rest.takeWhile p).length = rest.dropWhile p := by
  calc rest.drop (rest.takeWhile p).length
      = (rest.takeWhile p ++ rest.dropWhile p).drop (rest.takeWhile p).length := by
        rw [List.takeWhile_append_dropWhile]
    _ = rest.dropWhile p := List.drop_left

/-- A run ends where its property fails. -/
lemma not_of_mem_head?_dropWhile {d : Char} (h : d ∈ (rest.dropWhile p).head?) : p d = false := by
  have hhead := List.head?_dropWhile_not p rest
  rw [Option.mem_def.mp h] at hhead
  exact hhead

/-- No run is longer than the whole one. -/
lemma length_le_takeWhile {run : List Char} (hrun : ∀ d ∈ run, p d = true) (hbegin : run <+: rest) :
    run.length ≤ (rest.takeWhile p).length := by
  obtain ⟨after, rfl⟩ := hbegin
  simp [List.takeWhile_append_of_pos hrun]

/-- A run that is followed by something else is the whole one. -/
lemma takeWhile_run {run after : List Char} (hrun : ∀ d ∈ run, p d = true)
    (hafter : ∀ d ∈ after.head?, p d = false) : (run ++ after).takeWhile p = run := by
  rw [List.takeWhile_append_of_pos hrun]
  cases after with
  | nil => simp
  | cons d after => simp [hafter d rfl]

end Runs

/-! ## What the scanner finds -/

/-- What was found after the character `c` is the next piece. -/
def Finds (c : Char) (rest : List Char) (found : Piece × Nat) : Prop :=
  Next found.1 (c :: rest.take found.2) (rest.drop found.2)

variable {c : Char} {rest : List Char}

/-- A mark is found if no longer one is there. -/
lemma finds_mark {more : List Char} {kind : Kind} (hmark : (c :: more, kind) ∈ Kind.marks)
    (hrest : more <+: rest)
    (hlongest : ∀ entry ∈ Kind.marks, entry.1 <+: c :: rest → entry.1.length ≤ more.length + 1)
    (hcomment : ¬CommentAt (c :: rest)) : Finds c rest (plain kind more.length) := by
  obtain ⟨after, rfl⟩ := hrest
  obtain ⟨hletter, hdigit, hquote⟩ := class_of_mem_marks _ hmark c rfl
  simp only [Finds, plain, List.take_left, List.drop_left]
  refine .token (.mark hmark) ?_ hcomment (not_faultAt_of_class (.mark hmark) hdigit hquote)
  intro other kind literal hother hbegin
  cases other with
  | nil => exact Nat.zero_le _
  | cons d other =>
      have hd : d = c := (List.cons_prefix_cons.mp hbegin).1
      subst hd
      exact hlongest _ (hother.of_mark hletter hdigit hquote).1 hbegin

/-- A mark of two characters: there is no longer one. -/
lemma finds_double {d : Char} {kind : Kind} (hmark : ([c, d], kind) ∈ Kind.marks)
    (hcomment : ¬CommentAt (c :: d :: rest)) : Finds c (d :: rest) (plain kind 1) := by
  have hlength : ∀ entry ∈ Kind.marks, entry.1.length ≤ 2 := by decide
  exact finds_mark hmark (by simp) (fun entry hentry _ => hlength entry hentry) hcomment

/-- A mark of one character, where no second one of a mark follows. -/
lemma finds_single (seconds : List Char) {kind : Kind} (hmark : ([c], kind) ∈ Kind.marks)
    (hseconds : ∀ entry ∈ Kind.marks, entry.1.head? = some c → entry.1.tail ⊆ seconds)
    (hrest : ∀ d ∈ rest.head?, d ∉ seconds) (hcomment : ¬CommentAt (c :: rest)) :
    Finds c rest (plain kind 0) := by
  refine finds_mark hmark List.nil_prefix ?_ hcomment
  rintro ⟨text, kind'⟩ hentry hbegin
  match text with
  | [] | [_] => simp
  | first :: second :: text =>
      simp only [List.cons_prefix_cons] at hbegin
      obtain ⟨rfl, hsecond⟩ := hbegin
      obtain ⟨after, rfl⟩ := hsecond
      exact absurd (hseconds _ hentry rfl List.mem_cons_self) (hrest second rfl)

lemma finds_withEqual {single compound : Kind} (hsingle : ([c], single) ∈ Kind.marks)
    (hcompound : ([c, '='], compound) ∈ Kind.marks)
    (hseconds : ∀ entry ∈ Kind.marks, entry.1.head? = some c → entry.1.tail ⊆ ['='])
    (hc : c ≠ '/') : Finds c rest (withEqual single compound rest) := by
  fun_cases withEqual single compound rest with
  | case1 rest => exact finds_double hcompound (by simp [hc.symm])
  | case2 _ hne =>
      exact finds_single ['='] hsingle hseconds (by cases rest <;> simp_all) (by simp [hc.symm])

lemma finds_lesser : Finds '<' rest (lesserPiece rest) := by
  fun_cases lesserPiece rest with
  | case1 rest | case2 rest => exact finds_double (by decide) (by simp)
  | case3 _ hequal hminus =>
      exact finds_single ['=', '-'] (by decide) (by decide) (by cases rest <;> simp_all) (by simp)

lemma finds_slash : Finds '/' rest (slashPiece rest) := by
  fun_cases slashPiece rest with
  | case1 rest =>
      simp only [Finds, Nat.add_comm 1, List.take_succ_cons, List.drop_succ_cons, take_takeWhile,
        drop_takeWhile]
      refine .comment (fun hmem => ?_) fun c hc => ?_
      · simpa using List.mem_takeWhile_imp hmem
      · simpa using not_of_mem_head?_dropWhile hc
  | case2 rest => exact finds_double (by decide) (by simp)
  | case3 _ hslash hequal =>
      exact finds_single ['='] (by decide) (by decide) (by cases rest <;> simp_all)
        (by cases rest <;> simp_all [eq_comm])

/-- A word takes all letters and digits that follow. -/
lemma finds_word (hc : isLetter c = true) : Finds c rest (wordPiece c rest) := by
  have hmore : ∀ d ∈ rest.takeWhile isWordChar, isWordChar d = true := fun d => List.mem_takeWhile_imp
  have hdigit : c.isDigit = false := by
    by_contra h
    simp [isLetter_of_isDigit (by simpa using h)] at hc
  have hquote : c ∉ quotes := fun hq => by simp [(class_of_mem_quotes c hq).1] at hc
  have hne : '/' ≠ c := by
    rintro rfl
    exact absurd hc (by decide)
  simp only [Finds, wordPiece, plain, take_takeWhile]
  have hword := Lexeme.word hc hmore
  refine .token hword ?_ (by simp [hne]) (not_faultAt_of_class hword hdigit hquote)
  intro other kind literal hother hbegin
  rw [drop_takeWhile, List.cons_append, List.takeWhile_append_dropWhile] at hbegin
  cases other with
  | nil => exact Nat.zero_le _
  | cons d other =>
      obtain ⟨rfl, hother'⟩ := List.cons_prefix_cons.mp hbegin
      exact Nat.succ_le_succ (length_le_takeWhile (hother.of_letter hc).1 hother')

/-- A text in quotes ends with the next quote of its sort, whatever follows. -/
lemma longest_of_quote (hc : c ∈ quotes) {more after : List Char} {kind : Kind} {literal : Option Literal}
    (h : Lexeme (c :: more) kind literal) : Longest (c :: more) after := by
  have hrun : ∀ {body tail : List Char}, c ∉ body → (body ++ c :: tail).takeWhile (· != c) = body :=
    fun hbody => takeWhile_run (fun d hd => by simpa using ne_of_mem_of_not_mem hd hbody) (by simp)
  obtain ⟨body, rfl, hbody, -⟩ := h.of_quote hc
  intro other kind' literal' hother hbegin
  cases other with
  | nil => exact Nat.zero_le _
  | cons d other =>
      obtain ⟨rfl, tail, htail⟩ := List.cons_prefix_cons.mp hbegin
      obtain ⟨body', rfl, hbody', -⟩ := hother.of_quote hc
      have hwhole : body' ++ d :: tail = body ++ d :: after := by simpa using htail
      have hsame : body' = body := by rw [← hrun hbody', hwhole, hrun hbody]
      simp [hsame]

/-- A text in quotes takes everything up to the next quote of its sort; without one it is at fault. -/
lemma finds_string (hc : c ∈ quotes) : Finds c rest (stringPiece c rest) := by
  have hbody : c ∉ rest.takeWhile (· != c) := fun hmem => by simpa using List.mem_takeWhile_imp hmem
  have hne : '/' ≠ c := by
    rintro rfl
    exact absurd hc (by decide)
  have hsplit := List.takeWhile_append_dropWhile (p := (· != c)) (l := rest)
  generalize htext : rest.takeWhile (· != c) = body at hbody hsplit
  simp only [stringPiece, htext]
  cases hafter : rest.dropWhile (· != c) with
  | nil =>
      obtain rfl : body = rest := by simpa [hafter] using hsplit
      simpa [Finds] using Next.fault (Faulty.string hc hbody)
  | cons d after =>
      obtain rfl : d = c := by
        have hd : d ∈ (rest.dropWhile (· != c)).head? := by simp [hafter]
        simpa using not_of_mem_head?_dropWhile hd
      rw [hafter] at hsplit
      subst hsplit
      have hlexeme := Lexeme.string hc hbody
      rw [if_pos (by simp)]
      simp only [Finds, List.append_cons body d after]
      rw [List.take_left' (by simp), List.drop_left' (by simp)]
      refine .token hlexeme (longest_of_quote hc hlexeme) (by simp [hne])
        (not_faultAt hlexeme ?_ (by simp))
      rintro entry - after' rfl
      exact absurd hc (by decide)

/-- After the mark of a base its digits follow, or the two characters are at fault. -/
lemma finds_base {mark : Char} {base : Nat} {isBaseDigit : Char → Bool}
    (hbase : (mark, base, isBaseDigit) ∈ bases) :
    Finds '0' (mark :: rest) (basePiece base isBaseDigit rest) := by
  simp only [basePiece]
  by_cases hdigits : rest.takeWhile isBaseDigit = []
  · rw [if_pos (by simp [hdigits])]
    refine .fault (.base hbase fun d hd => ?_)
    have hdrop : rest.dropWhile isBaseDigit = rest := by
      simpa [hdigits] using List.takeWhile_append_dropWhile (p := isBaseDigit) (l := rest)
    simp only [List.drop_succ_cons, List.drop_zero] at hd
    rw [← hdrop] at hd
    exact not_of_mem_head?_dropWhile hd
  · rw [if_neg (by simpa using hdigits)]
    simp only [Finds, Nat.add_comm 1, List.take_succ_cons, List.drop_succ_cons, take_takeWhile,
      drop_takeWhile]
    have hlexeme := Lexeme.number (.based hbase hdigits fun d => List.mem_takeWhile_imp)
    refine .token hlexeme ?_ (by simp) ?_
    · intro other kind literal hother hbegin
      simp only [List.cons_append, List.takeWhile_append_dropWhile] at hbegin
      match other with
      | [] | [_] => simp
      | first :: second :: other =>
          simp only [List.cons_prefix_cons] at hbegin
          obtain ⟨rfl, rfl, hother'⟩ := hbegin
          obtain ⟨x, hx, -⟩ := hother.of_digit rfl
          have hle := length_le_takeWhile (hx.of_base hbase).2.1 hother'
          simpa using hle
    · simp only [List.cons_append, List.takeWhile_append_dropWhile]
      refine not_faultAt hlexeme ?_ fun hq => absurd hq (by decide)
      rintro ⟨mark', base', isBaseDigit'⟩ hentry after - heq
      simp only [List.cons.injEq] at heq
      obtain ⟨rfl, rfl⟩ := heq
      cases eq_of_mem_bases hbase hentry
      cases rest with
      | nil => simp at hdigits
      | cons d rest =>
          refine ⟨d, rfl, ?_⟩
          by_contra hd
          simp [hd] at hdigits

lemma eq_of_fraction_ne_nil {after : List Char} (h : fraction after ≠ []) :
    ∃ tail, after = '.' :: tail := by
  fun_cases fraction after with
  | case1 tail => exact ⟨tail, rfl⟩
  | case2 => simp [fraction] at h

/-- A numeral in tens that goes beyond the first digits goes on with a point and digits. -/
lemma length_le_of_numeral {whole after text : List Char} {x : Float} (hne : whole ≠ [])
    (hwhole : ∀ d ∈ whole, d.isDigit = true)
    (hafter : ∀ d ∈ after.head?, d.isDigit = false ∧ ∀ entry ∈ bases, whole = ['0'] → d ≠ entry.1)
    (h : Numeral text x) (hbegin : text <+: whole ++ after) :
    text.length ≤ whole.length +
      (if (fraction after).isEmpty then 0 else 1 + (fraction after).length) := by
  by_cases hlength : text.length ≤ whole.length
  · omega
  · obtain ⟨more, rfl⟩ := List.prefix_of_prefix_length_le (List.prefix_append whole after) hbegin
      (by omega)
    rw [List.prefix_append_right_inj] at hbegin
    obtain ⟨tail, rfl⟩ := hbegin
    have hmore : ∀ d ∈ more.head?, d ∈ (more ++ tail).head? := by
      cases more <;> simp
    rcases h.of_decimal hne hwhole (fun d hd => hafter d (hmore d hd)) with
      ⟨rfl, -⟩ | ⟨decimals, rfl, hne', hdecimals, -⟩
    · simp at hlength
    · have hle : decimals.length ≤ ((decimals ++ tail).takeWhile Char.isDigit).length :=
        length_le_takeWhile hdecimals (List.prefix_append ..)
      have hpos : 0 < decimals.length := List.length_pos_iff.mpr hne'
      have hfraction : ¬((decimals ++ tail).takeWhile Char.isDigit).isEmpty = true := by
        rw [List.isEmpty_iff_length_eq_zero]
        omega
      simp only [fraction, List.cons_append, if_neg hfraction, List.length_append, List.length_cons]
      omega

/-- A numeral in tens takes all digits, and a point with all digits after it if there is one. -/
lemma finds_decimal (hc : c.isDigit = true)
    (hbase : ∀ entry ∈ bases, c = '0' → ∀ d ∈ rest.head?, d ≠ entry.1) :
    Finds c rest (decimalPiece c rest) := by
  have hwhole : ∀ d ∈ c :: rest.takeWhile Char.isDigit, d.isDigit = true := by
    simpa [hc] using fun d => List.mem_takeWhile_imp
  have hsplit := List.takeWhile_append_dropWhile (p := Char.isDigit) (l := rest)
  have hafter : ∀ d ∈ (rest.dropWhile Char.isDigit).head?, d.isDigit = false ∧
      ∀ entry ∈ bases, c :: rest.takeWhile Char.isDigit = ['0'] → d ≠ entry.1 := by
    refine fun d hd => ⟨not_of_mem_head?_dropWhile hd, fun entry hentry hzero => ?_⟩
    obtain ⟨rfl, hmore⟩ := List.cons.inj hzero
    rw [hmore, List.nil_append] at hsplit
    exact hbase entry hentry rfl d (hsplit ▸ hd)
  simp only [Finds, decimalPiece, drop_takeWhile]
  generalize rest.takeWhile Char.isDigit = more at hwhole hsplit hafter
  generalize rest.dropWhile Char.isDigit = after at hsplit hafter
  subst hsplit
  have hquote : c ∉ quotes := fun hq => by simp [(class_of_mem_quotes c hq).2] at hc
  have hne : '/' ≠ c := by
    rintro rfl
    exact absurd hc (by decide)
  -- In both cases the text is `taken` and what is left is `left`.
  have hnumeral : ∀ taken left x, taken ++ left = more ++ after → Numeral (c :: taken) x →
      taken.length = more.length +
        (if (fraction after).isEmpty then 0 else 1 + (fraction after).length) →
      Next (.token .number (some (.number x))) (c :: taken) left := by
    intro taken left x htext hx hlength
    refine .token (.number hx) ?_ (by simp [hne]) ?_
    · intro other kind literal hother hbegin
      rw [List.cons_append, htext] at hbegin
      cases other with
      | nil => exact Nat.zero_le _
      | cons d other =>
          obtain ⟨rfl, -⟩ := List.cons_prefix_cons.mp hbegin
          obtain ⟨y, hy, -⟩ := hother.of_digit hc
          have hle := length_le_of_numeral (List.cons_ne_nil _ _) hwhole hafter hy hbegin
          simp only [List.length_cons] at hle ⊢
          omega
    · rw [List.cons_append, htext]
      refine not_faultAt (.number hx) ?_ fun hq => absurd hq hquote
      intro entry hentry tail hzero heq
      exact absurd rfl (hbase entry hentry hzero entry.1 (by simp [heq]))
  by_cases hfraction : fraction after = []
  · simpa [hfraction] using hnumeral more after _ rfl (.decimal (List.cons_ne_nil _ _) hwhole)
      (by simp [hfraction])
  · obtain ⟨tail, rfl⟩ := eq_of_fraction_ne_nil hfraction
    have htext : (more ++ '.' :: tail.takeWhile Char.isDigit) ++ tail.dropWhile Char.isDigit
        = more ++ '.' :: tail := by simp
    have hlength : (more ++ '.' :: tail.takeWhile Char.isDigit).length = more.length +
        (if (fraction ('.' :: tail)).isEmpty then 0 else 1 + (fraction ('.' :: tail)).length) := by
      rw [if_neg (by simpa using hfraction)]
      simp [fraction, Nat.add_comm]
    rw [← hlength, ← htext, List.take_left, List.drop_left]
    exact hnumeral _ _ _ htext (.fraction (List.cons_ne_nil _ _) hwhole hfraction
      fun d => List.mem_takeWhile_imp) hlength

/-! ## The first character decides -/

lemma finds_number (hc : c.isDigit = true) : Finds c rest (numberPiece c rest) := by
  fun_cases numberPiece c rest with
  | case1 rest | case2 rest => exact finds_base (by simp [bases])
  | case3 _ _ hbinary hhex =>
      refine finds_decimal hc ?_
      rintro entry hentry rfl d hd rfl
      obtain ⟨more, rfl⟩ := List.head?_eq_some_iff.mp hd
      simp only [bases, List.mem_cons, List.not_mem_nil, or_false] at hentry
      rcases hentry with rfl | rfl
      · exact hbinary more rfl rfl
      · exact hhex more rfl rfl

/-- **The step.**  What the scanner finds in front of a text is the next piece of that text. -/
theorem classify_next (c : Char) (rest : List Char) : Finds c rest (classify c rest) := by
  fun_cases classify c rest with
  | case1 | case2 | case3 | case4 | case5 | case6 | case7 | case8 | case9 | case10 | case11 =>
      exact finds_single [] (by decide) (by decide) (by simp) (by simp)
  | case12 | case13 | case14 | case15 | case16 | case17 | case18 =>
      exact finds_withEqual (by decide) (by decide) (by decide) (by decide)
  | case19 => exact finds_lesser
  | case20 => exact finds_slash
  | case21 | case22 | case23 | case24 => exact Next.blank (by decide)
  | case25 | case26 => exact finds_string (by decide)
  | case27 =>
      rw [if_pos ‹c.isDigit = true›]
      exact finds_number ‹_›
  | case28 =>
      rw [if_neg ‹¬c.isDigit = true›, if_pos ‹isLetter c = true›]
      exact finds_word ‹_›
  | case29 =>
      have hdigit : ¬c.isDigit = true := ‹_›
      have hletter : ¬isLetter c = true := ‹_›
      rw [if_neg hdigit, if_neg hletter]
      refine .fault (.character (by simp_all [blanks]) fun more kind literal h => ?_)
      have hmark := (h.of_mark (by simpa using hletter) (by simpa using hdigit) (by simp_all [quotes])).1
      simp_all [Kind.marks]

/-! ## One piece only -/

section Unique

variable {text text' after after' whole : List Char} {piece piece' : Piece} {complaint complaint' : Complaint}

/-- A blank begins here. -/
def BlankAt (whole : List Char) : Prop := ∃ c ∈ whole.head?, c ∈ blanks

lemma not_blankAt_of_lexeme {kind : Kind} {literal : Option Literal} (h : Lexeme text kind literal) :
    ¬BlankAt (text ++ after) := by
  rintro ⟨c, hhead, hc⟩
  have hclass : ∀ b ∈ blanks, isLetter b = false ∧ b.isDigit = false ∧ b ∉ quotes
      ∧ ∀ entry ∈ Kind.marks, entry.1.head? ≠ some b := by
    simp [blanks, quotes, isLetter, Kind.marks]
  obtain ⟨hletter, hdigit, hquote, hmarks⟩ := hclass c hc
  cases text with
  | nil => exact h.ne_nil rfl
  | cons d more =>
      obtain rfl : d = c := by simpa using hhead
      exact hmarks _ (h.of_mark hletter hdigit hquote).1 rfl

lemma not_blankAt_of_faultAt (h : FaultAt whole) : ¬BlankAt whole := by
  rintro ⟨c, hhead, hc⟩
  obtain ⟨complaint, text, after, rfl, h⟩ := h
  cases h with
  | character hblank =>
      obtain rfl := Option.some.inj hhead
      exact hblank hc
  | base =>
      obtain rfl := Option.some.inj hhead
      exact absurd hc (by decide)
  | string hquote =>
      obtain rfl := Option.some.inj hhead
      have hquotes : ∀ q ∈ quotes, q ∉ blanks := by simp [quotes, blanks]
      exact hquotes _ hquote hc

lemma not_blankAt_of_commentAt (h : CommentAt whole) : ¬BlankAt whole := by
  rintro ⟨c, hhead, hc⟩
  obtain ⟨tail, rfl⟩ := h
  obtain rfl := Option.some.inj hhead
  exact absurd hc (by decide)

lemma not_faultAt_of_commentAt (h : CommentAt whole) : ¬FaultAt whole := by
  obtain ⟨tail, rfl⟩ := h
  have hslash : Lexeme ['/'] .slash none := .mark (by decide)
  exact not_faultAt_of_class hslash rfl (by decide)

/-- Of which sort the next piece is can be read off the text. -/
lemma Next.sort_iff (h : Next piece text after) :
    (piece = .blank ↔ BlankAt (text ++ after)) ∧ (piece = .comment ↔ CommentAt (text ++ after))
      ∧ ((∃ complaint, piece = .fault complaint) ↔ FaultAt (text ++ after)) := by
  cases h with
  | @blank c _ hc =>
      have hblank : BlankAt ([c] ++ after) := ⟨c, rfl, hc⟩
      exact ⟨iff_of_true rfl hblank,
        iff_of_false (by simp) fun h => not_blankAt_of_commentAt h hblank,
        iff_of_false (by simp) fun h => not_blankAt_of_faultAt h hblank⟩
  | @comment body =>
      have hcomment : CommentAt ('/' :: '/' :: body ++ after) := List.prefix_append ['/', '/'] _
      exact ⟨iff_of_false (by simp) (not_blankAt_of_commentAt hcomment), iff_of_true rfl hcomment,
        iff_of_false (by simp) (not_faultAt_of_commentAt hcomment)⟩
  | fault h =>
      have hfault : FaultAt (text ++ after) := ⟨_, _, _, rfl, h⟩
      exact ⟨iff_of_false (by simp) (not_blankAt_of_faultAt hfault),
        iff_of_false (by simp) fun h => not_faultAt_of_commentAt h hfault,
        iff_of_true ⟨_, rfl⟩ hfault⟩
  | token hlexeme _ hcomment hfault =>
      exact ⟨iff_of_false (by simp) (not_blankAt_of_lexeme hlexeme), iff_of_false (by simp) hcomment,
        iff_of_false (by simp) hfault⟩

lemma lexeme_zero : ∃ x, Lexeme ['0'] .number (some (.number x)) :=
  ⟨_, .number (.decimal (List.cons_ne_nil _ _) (by simp))⟩

lemma lexeme_of_mem_quotes (hc : c ∈ quotes) : Lexeme [c, c] .string (some (.string "")) :=
  .string hc List.not_mem_nil

/-- A fragment is at fault in one way only. -/
lemma Faulty.unique (h : Faulty complaint text after) (h' : Faulty complaint' text' after')
    (heq : text' ++ after' = text ++ after) : complaint' = complaint ∧ text' = text := by
  obtain ⟨x, hzero⟩ := lexeme_zero
  cases h with
  | character _ hno =>
      cases h' with
      | character => simpa using (List.cons.inj heq).1
      | base => exact absurd ((List.cons.inj heq).1 ▸ hzero) (hno _ _ _)
      | string hquote =>
          exact absurd ((List.cons.inj heq).1 ▸ lexeme_of_mem_quotes hquote) (hno _ _ _)
  | base =>
      cases h' with
      | character _ hno => exact absurd ((List.cons.inj heq).1 ▸ hzero) (hno _ _ _)
      | base => simp_all
      | string hquote => exact absurd ((List.cons.inj heq).1 ▸ hquote) (by decide)
  | string hquote =>
      cases h' with
      | character _ hno =>
          exact absurd ((List.cons.inj heq).1 ▸ lexeme_of_mem_quotes hquote) (hno _ _ _)
      | base => exact absurd ((List.cons.inj heq).1 ▸ hquote) (by decide)
      | string => simpa using heq

/-- **A text begins with one piece only.** -/
theorem Next.unique (h : Next piece text after) (h' : Next piece' text' after')
    (heq : text' ++ after' = text ++ after) : piece' = piece ∧ text' = text := by
  obtain ⟨hblank, hcomment, hfault⟩ := h.sort_iff
  obtain ⟨hblank', hcomment', hfault'⟩ := h'.sort_iff
  rw [heq] at hblank' hcomment' hfault'
  cases h with
  | blank hc =>
      obtain rfl : piece' = .blank := hblank'.mpr (hblank.mp rfl)
      cases h'
      simpa using (List.cons.inj heq).1
  | comment hbody hrest =>
      obtain rfl : piece' = .comment := hcomment'.mpr (hcomment.mp rfl)
      have hrun : ∀ {run tail : List Char}, '\n' ∉ run → (∀ c ∈ tail.head?, c = '\n') →
          (run ++ tail).takeWhile (· != '\n') = run := fun hrun htail =>
        takeWhile_run (fun d hd => by simpa using ne_of_mem_of_not_mem hd hrun)
          fun d hd => by simpa using htail d hd
      cases h' with
      | comment hbody' hrest' =>
          simp only [List.cons_append, List.cons.injEq, true_and] at heq
          have hsame := hrun hbody' hrest'
          rw [heq, hrun hbody hrest] at hsame
          simp [hsame]
  | fault h =>
      obtain ⟨complaint', rfl⟩ := hfault'.mpr (hfault.mp ⟨_, rfl⟩)
      cases h' with
      | fault h' => simpa using h.unique h' heq
  | token hlexeme hlongest =>
      cases h' with
      | blank => simpa using hblank.mpr (hblank'.mp rfl)
      | comment => simpa using hcomment.mpr (hcomment'.mp rfl)
      | fault => simpa using hfault.mpr (hfault'.mp ⟨_, rfl⟩)
      | token hlexeme' hlongest' =>
          have hle := hlongest _ _ _ hlexeme' (heq ▸ List.prefix_append ..)
          have hle' := hlongest' _ _ _ hlexeme (heq ▸ List.prefix_append ..)
          obtain ⟨rfl, -⟩ := List.append_inj heq (by omega)
          obtain ⟨rfl, rfl⟩ := hlexeme.unique hlexeme'
          exact ⟨rfl, rfl⟩

end Unique

end KScript

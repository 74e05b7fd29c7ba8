import KScript.Proofs.Dump.Scalars

/-!
# Reading JSON texts

A JSON text is read by looking at its first character.  What stands between brackets is read part by part
(`readParts`), with `fuel` for as many parts and as deep a nesting as the text has characters.  The data
that was written is what is read (`ofJson_text`), so no two data have the same text.
-/

namespace KScript.Json

variable {α : Type}

/-! ## The reader -/

/-- The text from its first character that is not blank. -/
def skip (cs : List Char) : List Char := cs.dropWhile fun c => c == ' ' || c == '\n'

/-- Parts with commas between them up to the closing bracket, and what follows that. -/
def readParts (readPart : List Char → Option (α × List Char)) (closing : Char) :
    Nat → List Char → Option (List α × List Char)
  | 0, _ => none
  | fuel + 1, cs =>
    (readPart (skip cs)).bind fun (a, rest) =>
      match skip rest with
      | [] => none
      | c :: rest =>
        if c = closing then some ([a], rest)
        else (readParts readPart closing fuel rest).map fun (parts, rest) => (a :: parts, rest)

/-- The same where there may be no part. -/
def readBracketed (readPart : List Char → Option (α × List Char)) (closing : Char) (fuel : Nat)
    (cs : List Char) : Option (List α × List Char) :=
  if (skip cs).head? = some closing then some ([], (skip cs).tail)
  else readParts readPart closing fuel cs

/-- A name, a colon and a value. -/
def readField (readValue : List Char → Option (Data × List Char)) (cs : List Char) :
    Option ((String × Data) × List Char) :=
  (readString cs.tail).bind fun (name, rest) =>
    (readValue (skip rest.tail)).map fun (d, rest) => ((String.ofList name, d), rest)

/-- A value, and what follows it. -/
def readValue : Nat → List Char → Option (Data × List Char)
  | 0, _ => none
  | fuel + 1, cs =>
    match cs with
    | '"' :: rest => (readString rest).map fun (s, rest) => (.text (String.ofList s), rest)
    | '[' :: rest =>
      (readBracketed (readValue fuel) ']' fuel rest).map fun (items, rest) => (.list items, rest)
    | '{' :: rest =>
      (readBracketed (readField (readValue fuel)) '}' fuel rest).map fun (fields, rest) =>
        (.record fields, rest)
    | cs => some (ofScalar (cs.takeWhile isScalarChar), cs.dropWhile isScalarChar)

/-- The data of a JSON text. -/
def ofJson (text : String) : Option Data := (readValue (text.length + 1) text.toList).map Prod.fst

/-! ## Brackets -/

/-- No scalar goes on here. -/
def Ends (rest : List Char) : Prop := ∀ c ∈ rest.head?, isScalarChar c = false

/-- The text begins with a character that is neither blank nor a closing bracket. -/
def Begins (text : String) : Prop := ∃ c ∈ text.toList.head?, c ∉ [' ', '\n', ']', '}']

/-- The value is read off the text wherever that ends. -/
structure Reads (readPart : List Char → Option (α × List Char)) (text : String) (a : α) : Prop where
  begins : Begins text
  reads : ∀ rest, Ends rest → readPart (text.toList ++ rest) = some (a, rest)

lemma toList_newLine (indent : Nat) : (newLine indent).toList = '\n' :: List.replicate indent ' ' := by
  simp [newLine]

lemma skip_newLine (indent : Nat) (cs : List Char) : skip ((newLine indent).toList ++ cs) = skip cs := by
  have hspaces : ∀ c ∈ List.replicate indent ' ', (c == ' ' || c == '\n') = true := by
    intro c hc
    rw [List.eq_of_mem_replicate hc]
    rfl
  rw [toList_newLine, List.cons_append]
  exact List.dropWhile_append_of_pos hspaces

lemma skip_cons {c : Char} (h : c ∉ [' ', '\n']) (cs : List Char) : skip (c :: cs) = c :: cs := by
  simp only [List.mem_cons, List.not_mem_nil, or_false, not_or] at h
  simp [skip, h]

lemma ends_newLine (indent : Nat) (cs : List Char) : Ends ((newLine indent).toList ++ cs) := by
  intro c hc
  rw [toList_newLine] at hc
  obtain rfl := Option.some.inj hc
  rfl

lemma Begins.exists_cons {text : String} (h : Begins text) :
    ∃ c more, text.toList = c :: more ∧ c ∉ [' ', '\n', ']', '}'] := by
  obtain ⟨c, hc, hnot⟩ := h
  exact ⟨c, text.toList.tail, List.eq_cons_of_mem_head? hc, hnot⟩

lemma Begins.skip_eq {text : String} (h : Begins text) (cs : List Char) :
    skip (text.toList ++ cs) = text.toList ++ cs := by
  obtain ⟨c, more, htext, hnot⟩ := h.exists_cons
  rw [htext]
  exact skip_cons (fun hc => hnot (by simp at hc ⊢; tauto)) _

lemma Begins.append {text : String} (h : Begins text) (more : String) : Begins (text ++ more) := by
  obtain ⟨c, tail, htext, hnot⟩ := h.exists_cons
  exact ⟨c, by simp [htext], hnot⟩

lemma Begins.intercalate {text : String} (h : Begins text) (sep : String) (parts : List String) :
    Begins (sep.intercalate (text :: parts)) := by
  cases parts with
  | nil => rwa [String.intercalate_singleton]
  | cons next parts =>
      rw [String.intercalate_cons_cons, String.append_assoc]
      exact h.append _

section Brackets

variable {readPart : List Char → Option (α × List Char)} {closing : Char} {rest : List Char}
  {indent outer fuel : Nat}

/-- **One part after the other.**  The induction is on the parts that follow the first. -/
lemma readParts_intercalate (hclosing : closing ∈ [']', '}']) {parts : List String} {values : List α}
    (hparts : List.Forall₂ (Reads readPart) parts values) :
    ∀ {part : String} {a : α} {fuel : Nat} {cs : List Char}, Reads readPart part a →
    parts.length < fuel →
    skip cs = (("," ++ newLine indent).intercalate (part :: parts)).toList
      ++ ((newLine outer).toList ++ closing :: rest) →
    readParts readPart closing fuel cs = some (a :: values, rest) := by
  have hblank : closing ∉ [' ', '\n'] := by
    simp only [List.mem_cons, List.not_mem_nil, or_false] at hclosing
    rcases hclosing with rfl | rfl <;> decide
  have hcomma : ',' ≠ closing := by
    rintro rfl
    exact absurd hclosing (by decide)
  induction hparts with
  | nil =>
      intro part a fuel cs hpart hfuel hcs
      obtain ⟨fuel, rfl⟩ := Nat.exists_eq_succ_of_ne_zero (Nat.ne_of_gt hfuel)
      rw [String.intercalate_singleton] at hcs
      rw [readParts, hcs, hpart.reads _ (ends_newLine _ _)]
      simp only [Option.bind_some, skip_newLine, skip_cons hblank, if_true]
  | @cons next b parts values hnext hparts ih =>
      intro part a fuel cs hpart hfuel hcs
      obtain ⟨fuel, rfl⟩ := Nat.exists_eq_succ_of_ne_zero (Nat.ne_zero_of_lt hfuel)
      have hsep : ("," ++ newLine indent).toList = ',' :: (newLine indent).toList := by simp
      rw [String.intercalate_cons_cons, String.toList_append, String.toList_append, hsep,
        List.append_assoc, List.append_assoc, List.cons_append] at hcs
      have hskip := (skip_newLine indent _).trans
        ((hnext.begins.intercalate ("," ++ newLine indent) parts).skip_eq
          ((newLine outer).toList ++ closing :: rest))
      have hread := ih hnext (Nat.lt_of_succ_lt_succ hfuel) hskip
      rw [readParts, hcs, hpart.reads _ (by simp [Ends, isScalarChar]), Option.bind_some]
      simp only [skip_cons (show ',' ∉ [' ', '\n'] by decide), if_neg hcomma, hread, Option.map_some]

/-- What stands after an opening bracket. -/
def body (closing : Char) (indent : Nat) (parts : List String) : List Char :=
  if parts.isEmpty then [closing]
  else (newLine (indent + 2)).toList ++ ((("," ++ newLine (indent + 2)).intercalate parts).toList
    ++ ((newLine indent).toList ++ [closing]))

lemma toList_bracketed (opening closing : Char) (indent : Nat) (parts : List String) :
    (bracketed (String.singleton opening) (String.singleton closing) indent parts).toList
      = opening :: body closing indent parts := by
  unfold bracketed body
  split <;> simp

/-- **What stands between brackets is read part by part.** -/
lemma readBracketed_body (hclosing : closing ∈ [']', '}']) {parts : List String} {values : List α}
    (hparts : List.Forall₂ (Reads readPart) parts values) (hfuel : parts.length ≤ fuel) :
    readBracketed readPart closing fuel (body closing indent parts ++ rest) = some (values, rest) := by
  cases hparts with
  | nil =>
      have hskip : skip (closing :: rest) = closing :: rest := by
        simp only [List.mem_cons, List.not_mem_nil, or_false] at hclosing
        rcases hclosing with rfl | rfl <;> rfl
      change readBracketed readPart closing fuel (closing :: rest) = _
      rw [readBracketed, hskip]
      simp
  | @cons part a parts values hpart hparts =>
      have hbegins := hpart.begins.intercalate ("," ++ newLine (indent + 2)) parts
      have hbody : body closing indent (part :: parts) ++ rest = (newLine (indent + 2)).toList
          ++ ((("," ++ newLine (indent + 2)).intercalate (part :: parts)).toList
            ++ ((newLine indent).toList ++ closing :: rest)) := by
        simp [body]
      have hskip : skip (body closing indent (part :: parts) ++ rest)
          = (("," ++ newLine (indent + 2)).intercalate (part :: parts)).toList
            ++ ((newLine indent).toList ++ closing :: rest) := by
        rw [hbody, skip_newLine, hbegins.skip_eq]
      have hread := readParts_intercalate hclosing hparts hpart hfuel hskip
      rw [readBracketed, hread, if_neg]
      obtain ⟨c, more, htext, hnot⟩ := hbegins.exists_cons
      rw [hskip, htext]
      rintro heq
      obtain rfl := Option.some.inj heq
      exact hnot (List.mem_cons_of_mem _ (List.mem_cons_of_mem _ hclosing))

/-- A text between brackets has room for its parts, each of them and all of them. -/
lemma length_body (closing : Char) (indent : Nat) (parts : List String) :
    parts.length < (body closing indent parts).length
      ∧ ∀ part ∈ parts, part.toList.length < (body closing indent parts).length := by
  have hjoined : ∀ parts : List String,
      parts.length ≤ ((("," ++ newLine (indent + 2)).intercalate parts).toList).length + 1
      ∧ ∀ part ∈ parts,
        part.toList.length ≤ ((("," ++ newLine (indent + 2)).intercalate parts).toList).length := by
    intro parts
    induction parts with
    | nil => simp
    | cons part parts ih =>
        cases parts with
        | nil => simp
        | cons next parts =>
            rw [String.intercalate_cons_cons, String.toList_append, String.toList_append,
              List.length_append, List.length_append]
            refine ⟨?_, List.forall_mem_cons.mpr ⟨by omega, fun t ht => (ih.2 t ht).trans (by omega)⟩⟩
            have hcomma : 1 ≤ ("," ++ newLine (indent + 2)).toList.length := by simp
            have hrest := ih.1
            rw [List.length_cons]
            omega
  cases parts with
  | nil => simp [body]
  | cons part parts =>
      obtain ⟨hcount, hlength⟩ := hjoined (part :: parts)
      have hbody : (body closing indent (part :: parts)).length
          = indent + 3 + ((("," ++ newLine (indent + 2)).intercalate (part :: parts)).toList.length
            + (indent + 1 + 1)) := by
        simp [body, toList_newLine]
        omega
      rw [hbody]
      exact ⟨by omega, fun t ht => by have := hlength t ht; omega⟩

end Brackets

/-! ## Data -/

section Values

variable {d : Data} {rest : List Char} {indent fuel : Nat}

lemma toList_stringText (s : String) :
    (stringText s).toList = '"' :: (s.toList.flatMap escape ++ ['"']) := by
  simp [stringText]

lemma readValue_of_isScalarChar {c : Char} {cs : List Char} (hhead : c ∈ cs.head?)
    (hc : isScalarChar c = true) : readValue (fuel + 1) cs
      = some (ofScalar (cs.takeWhile isScalarChar), cs.dropWhile isScalarChar) := by
  rw [readValue]
  all_goals
    rintro rest rfl
    obtain rfl := Option.some.inj hhead
    exact absurd hc (by decide)

/-- A word or a number ends where no scalar goes on. -/
lemma reads_scalar (d : Data) (h : IsScalar d) (indent fuel : Nat) :
    Reads (readValue (fuel + 1)) (text indent d) d := by
  obtain ⟨hvalue, hchars, hne⟩ := says_text indent h
  obtain ⟨c, more, hcons⟩ := List.exists_cons_of_ne_nil hne
  have hc : isScalarChar c = true := hchars c (by simp [hcons])
  refine ⟨⟨c, by simp [hcons], ?_⟩, ?_⟩
  · intro hmem
    have hnot : ∀ b ∈ [' ', '\n', ']', '}'], isScalarChar b = false := by simp [isScalarChar]
    rw [hnot c hmem] at hc
    cases hc
  · intro rest hrest
    rw [readValue_of_isScalarChar (by simp [hcons]) hc, List.takeWhile_append_of_pos hchars,
      List.dropWhile_append_of_pos hchars]
    cases rest with
    | nil => simp [hvalue]
    | cons b rest => simp [hvalue, hrest b rfl]

lemma reads_string (s : String) (indent fuel : Nat) :
    Reads (readValue (fuel + 1)) (text indent (.text s)) (.text s) := by
  refine ⟨⟨'"', by simp [text, toList_stringText], by decide⟩, fun rest _ => ?_⟩
  rw [text, toList_stringText, List.cons_append, List.append_assoc, readValue]
  simp [readString_flatMap]

lemma reads_list {items : List Data}
    (hitems : List.Forall₂ (Reads (readValue fuel)) (texts (indent + 2) items) items)
    (hfuel : (texts (indent + 2) items).length ≤ fuel) :
    Reads (readValue (fuel + 1)) (text indent (.list items)) (.list items) := by
  have htext : (text indent (.list items)).toList = '[' :: body ']' indent (texts (indent + 2) items) :=
    toList_bracketed '[' ']' indent _
  refine ⟨⟨'[', by simp [htext], by decide⟩, fun rest _ => ?_⟩
  rw [htext, List.cons_append, readValue, readBracketed_body (by decide) hitems hfuel, Option.map_some]

lemma reads_record {fields : List (String × Data)}
    (hfields : List.Forall₂ (Reads (readField (readValue fuel))) (fieldTexts (indent + 2) fields) fields)
    (hfuel : (fieldTexts (indent + 2) fields).length ≤ fuel) :
    Reads (readValue (fuel + 1)) (text indent (.record fields)) (.record fields) := by
  have htext : (text indent (.record fields)).toList
      = '{' :: body '}' indent (fieldTexts (indent + 2) fields) := toList_bracketed '{' '}' indent _
  refine ⟨⟨'{', by simp [htext], by decide⟩, fun rest _ => ?_⟩
  rw [htext, List.cons_append, readValue, readBracketed_body (by decide) hfields hfuel, Option.map_some]

lemma reads_field (name : String) (h : Reads (readValue fuel) (text indent d) d) :
    Reads (readField (readValue fuel)) (stringText name ++ ": " ++ text indent d) (name, d) := by
  refine ⟨⟨'"', by simp [toList_stringText], by decide⟩, fun rest hrest => ?_⟩
  have htext : (stringText name ++ ": " ++ text indent d).toList ++ rest
      = '"' :: (name.toList.flatMap escape ++ '"' :: ':' :: ' ' :: ((text indent d).toList ++ rest)) := by
    simp [toList_stringText]
  have hskip : skip (' ' :: ((text indent d).toList ++ rest)) = (text indent d).toList ++ rest :=
    h.begins.skip_eq rest
  rw [htext, readField, List.tail_cons, readString_flatMap, Option.bind_some]
  simp only [List.tail_cons, hskip, h.reads rest hrest, Option.map_some, String.ofList_toList]

end Values

mutual

/-- **What was written is what is read.**  The text of a part is shorter than the whole, so fuel for the
characters of a text is fuel for those of its parts. -/
theorem reads_text : ∀ (d : Data) (indent : Nat) {fuel : Nat}, (text indent d).toList.length < fuel + 1 →
    Reads (readValue (fuel + 1)) (text indent d) d
  | .null, indent, fuel => fun _ => reads_scalar .null trivial indent fuel
  | .bool b, indent, fuel => fun _ => reads_scalar (.bool b) trivial indent fuel
  | .integer n, indent, fuel => fun _ => reads_scalar (.integer n) trivial indent fuel
  | .float x, indent, fuel => fun _ => reads_scalar (.float x) trivial indent fuel
  | .text s, indent, fuel => fun _ => reads_string s indent fuel
  | .list items, indent, fuel => by
      intro h
      have htext : (text indent (.list items)).toList = '[' :: body ']' indent (texts (indent + 2) items) :=
        toList_bracketed '[' ']' indent _
      have hlength := length_body ']' indent (texts (indent + 2) items)
      rw [htext, List.length_cons] at h
      exact reads_list (reads_texts items _ fun t ht => by have := hlength.2 t ht; omega) (by omega)
  | .record fields, indent, fuel => by
      intro h
      have htext : (text indent (.record fields)).toList
          = '{' :: body '}' indent (fieldTexts (indent + 2) fields) := toList_bracketed '{' '}' indent _
      have hlength := length_body '}' indent (fieldTexts (indent + 2) fields)
      rw [htext, List.length_cons] at h
      exact reads_record (reads_fieldTexts fields _ fun t ht => by have := hlength.2 t ht; omega) (by omega)

theorem reads_texts : ∀ (items : List Data) (indent : Nat) {fuel : Nat},
    (∀ t ∈ texts indent items, t.toList.length < fuel) →
    List.Forall₂ (Reads (readValue fuel)) (texts indent items) items
  | [], _, _ => fun _ => .nil
  | d :: items, indent, fuel => by
      intro h
      rw [texts, List.forall_mem_cons] at h
      obtain ⟨fuel, rfl⟩ := Nat.exists_eq_succ_of_ne_zero (Nat.ne_zero_of_lt h.1)
      exact .cons (reads_text d indent h.1) (reads_texts items indent h.2)

theorem reads_fieldTexts : ∀ (fields : List (String × Data)) (indent : Nat) {fuel : Nat},
    (∀ t ∈ fieldTexts indent fields, t.toList.length < fuel) →
    List.Forall₂ (Reads (readField (readValue fuel))) (fieldTexts indent fields) fields
  | [], _, _ => fun _ => .nil
  | (name, d) :: fields, indent, fuel => by
      intro h
      rw [fieldTexts, List.forall_mem_cons] at h
      obtain ⟨fuel, rfl⟩ := Nat.exists_eq_succ_of_ne_zero (Nat.ne_zero_of_lt h.1)
      have hshorter := h.1
      rw [String.toList_append, List.length_append] at hshorter
      exact .cons (reads_field name (reads_text d indent (by omega))) (reads_fieldTexts fields indent h.2)

end

/-- **A JSON text tells its data.** -/
theorem ofJson_text (indent : Nat) (d : Data) : ofJson (text indent d) = some d := by
  have hfuel : (text indent d).toList.length < (text indent d).length + 1 := by
    rw [String.length_toList]
    exact Nat.lt_succ_self _
  have hread := (reads_text d indent hfuel).reads [] (by simp [Ends])
  rw [List.append_nil] at hread
  rw [ofJson, hread, Option.map_some]

end KScript.Json

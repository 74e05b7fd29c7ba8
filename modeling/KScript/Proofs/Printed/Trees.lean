import KScript.Proofs.Grammar.Lexed
import KScript.Proofs.Grammar.Rendering
import KScript.Proofs.Number.Written
import KScript.Proofs.Printed.Forms
import KScript.Syntax.PrefixForm

/-!
# Reading expressions off their prefix forms

The prefix form of an expression says nothing of the lines of its tokens and of the flags of its
properties; `Expr.unplaced` is what is left without them.  All else can be read off: `Form.tree?` takes a
form to the expression that it stands for, and gives back every expression that is spelled by the tokens of a
script in which no name is spelled like a truth value (`Expr.says_form`).  There a name is told from the
literal values by its spelling, and an operator with two operands from the one with a single operand by how
much follows it.
-/

namespace KScript

open Scan
open KScript.Parser (Tree)

variable {β : Type}

/-! ## What the prefix form leaves out -/

/-- The token on no line. -/
def Token.unplaced (t : Token) : Token := t.relined fun _ => 0

/-- The reference on no line. -/
def Reference.unplaced (ref : Reference β) : Reference β := ref.relined fun _ => 0

mutual

/-- The expression without the lines of its tokens and without the flags of its properties. -/
def Expr.unplaced : Expr β → Expr β
  | .literal value => .literal value
  | .array items => .array (Expr.unplacedAll items)
  | .grouping inner => .grouping inner.unplaced
  | .unary op operand => .unary op.unplaced operand.unplaced
  | .binary left op right => .binary left.unplaced op.unplaced right.unplaced
  | .logical left op right => .logical left.unplaced op.unplaced right.unplaced
  | .conditional condition yes no => .conditional condition.unplaced yes.unplaced no.unplaced
  | .variable ref => .variable ref.unplaced
  | .assign ref value => .assign ref.unplaced value.unplaced
  | .step direction ref => .step direction ref.unplaced
  | .call callee paren args => .call callee.unplaced paren.unplaced (Expr.unplacedAll args)
  | .get object name _ => .get object.unplaced name.unplaced false
  | .set object name value _ => .set object.unplaced name.unplaced value.unplaced false
  | .receiver ref => .receiver ref.unplaced
  | .inherited ref method => .inherited ref.unplaced method.unplaced

/-- The expressions without lines and flags. -/
def Expr.unplacedAll : List (Expr β) → List (Expr β)
  | [] => []
  | e :: rest => e.unplaced :: Expr.unplacedAll rest

end

mutual

/-- The prefix form shows neither lines nor flags. -/
lemma Expr.prefixForm_unplaced : ∀ e : Expr β, e.unplaced.prefixForm = e.prefixForm
  | .literal _ => rfl
  | .array items => by simp only [unplaced, prefixForm, Expr.prefixForms_unplacedAll items]
  | .grouping inner => by simp only [unplaced, prefixForm, Expr.prefixForm_unplaced inner]
  | .unary _ operand => by
      simp only [unplaced, prefixForm, Expr.prefixForm_unplaced operand]
      rfl
  | .binary left _ right | .logical left _ right => by
      simp only [unplaced, prefixForm, Expr.prefixForm_unplaced left, Expr.prefixForm_unplaced right]
      rfl
  | .conditional condition yes no => by
      simp only [unplaced, prefixForm, Expr.prefixForm_unplaced condition, Expr.prefixForm_unplaced yes,
        Expr.prefixForm_unplaced no]
  | .variable _ => rfl
  | .assign _ value => by
      simp only [unplaced, prefixForm, Expr.prefixForm_unplaced value]
      rfl
  | .step _ _ => rfl
  | .call callee _ args => by
      simp only [unplaced, prefixForm, Expr.prefixForm_unplaced callee, Expr.prefixForms_unplacedAll args]
  | .get object _ _ => by
      simp only [unplaced, prefixForm, Expr.prefixForm_unplaced object]
      rfl
  | .set object _ value _ => by
      simp only [unplaced, prefixForm, Expr.prefixForm_unplaced object, Expr.prefixForm_unplaced value]
      rfl
  | .receiver _ => rfl
  | .inherited _ _ => rfl

lemma Expr.prefixForms_unplacedAll : ∀ es : List (Expr β),
    Expr.prefixForms (Expr.unplacedAll es) = Expr.prefixForms es
  | [] => rfl
  | e :: rest => by
      simp only [unplacedAll, prefixForms, Expr.prefixForm_unplaced e, Expr.prefixForms_unplacedAll rest]

end

/-! ## The form of an expression -/

/-- The form of a literal value. -/
def Literal.form : Literal → Form
  | .string s => .quoted s
  | value => .word value.display.toList

/-- A name as a form. -/
def Token.form (t : Token) : Form := .word t.lexeme.toList

mutual

/-- The form of an expression. -/
def Expr.form : Expr β → Form
  | .literal value => value.form
  | .array items => .list "array".toList (Expr.forms items)
  | .grouping inner => .list "group".toList [inner.form]
  | .unary op operand => .list op.lexeme.toList [operand.form]
  | .binary left op right => .list op.lexeme.toList [left.form, right.form]
  | .logical left op right => .list op.lexeme.toList [left.form, right.form]
  | .conditional condition yes no => .list "?".toList [condition.form, yes.form, no.form]
  | .variable ref => ref.name.form
  | .assign ref value => .list "=".toList [ref.name.form, value.form]
  | .step direction ref => .list direction.word.toList [ref.name.form]
  | .call callee _ args => .list "call".toList (callee.form :: Expr.forms args)
  | .get object name _ => .list ".".toList [object.form, name.form]
  | .set object name value _ => .list ".=".toList [object.form, name.form, value.form]
  | .receiver _ => .word "this".toList
  | .inherited _ method => .list "super".toList [method.form]

/-- The forms of expressions. -/
def Expr.forms : List (Expr β) → List Form
  | [] => []
  | e :: rest => e.form :: Expr.forms rest

end

/-- Words in parentheses are the text of a list. -/
lemma Form.text_list {parts : List String} {items : List Form}
    (h : items.map Form.text = parts.map String.toList) (head : String) :
    (Form.list head.toList items).text = (Expr.inParens (head :: parts)).toList := by
  have htail : ∀ (first : String) {parts : List String} {items : List Form},
      items.map Form.text = parts.map String.toList →
      (" ".intercalate (first :: parts)).toList ++ [')'] = first.toList ++ Form.tail items := by
    intro first parts items hitems
    induction parts generalizing first items with
    | nil =>
        obtain rfl := List.map_eq_nil_iff.mp hitems
        simp [Form.tail]
    | cons part parts ih =>
        obtain ⟨item, items, rfl, htext, hrest⟩ := List.map_eq_cons_iff.mp hitems
        rw [String.intercalate_cons_cons, String.toList_append, List.append_assoc, ih part hrest,
          Form.tail, htext]
        simp
  rw [Form.text, ← htail head h]
  simp [Expr.inParens]

mutual

/-- The text of the form of an expression is its prefix form. -/
lemma Expr.text_form : ∀ e : Expr β, e.form.text = e.prefixForm.toList
  | .literal value => by cases value <;> rfl
  | .array items => Form.text_list (Expr.texts_forms items) "array"
  | .grouping inner => Form.text_list (by simp [Expr.text_form inner]) "group"
  | .unary op operand => Form.text_list (by simp [Expr.text_form operand]) op.lexeme
  | .binary left op right | .logical left op right =>
      Form.text_list (by simp [Expr.text_form left, Expr.text_form right]) op.lexeme
  | .conditional condition yes no =>
      Form.text_list (by simp [Expr.text_form condition, Expr.text_form yes, Expr.text_form no]) "?"
  | .variable _ => rfl
  | .assign ref value => Form.text_list (by simp [Token.form, Form.text, Expr.text_form value]) "="
  | .step direction ref => Form.text_list (by simp [Token.form, Form.text]) direction.word
  | .call callee _ args => Form.text_list (by simp [Expr.text_form callee, Expr.texts_forms args]) "call"
  | .get object name _ => Form.text_list (by simp [Token.form, Form.text, Expr.text_form object]) "."
  | .set object name value _ =>
      Form.text_list (by simp [Token.form, Form.text, Expr.text_form object, Expr.text_form value]) ".="
  | .receiver _ => rfl
  | .inherited _ method => Form.text_list (by simp [Token.form, Form.text]) "super"

lemma Expr.texts_forms : ∀ es : List (Expr β),
    (Expr.forms es).map Form.text = (Expr.prefixForms es).map String.toList
  | [] => rfl
  | e :: rest => by simp [forms, prefixForms, Expr.text_form e, Expr.texts_forms rest]

end

/-! ## Reading a form -/

/-- The words that stand for literal values. -/
def Literal.words : List (String × Literal) :=
  [("zilch", .zilch), ("True", .bool true), ("False", .bool false), ("+inf", .number Double.infinity)]

/-- What a word stands for. -/
def Expr.ofWord? (w : List Char) : Option Tree :=
  match Literal.words.lookup (String.ofList w) with
  | some value => some (.literal value)
  | none =>
    if w.head?.any Char.isDigit then some (.literal (.number (Double.ofNumeral 'E' w)))
    else (Token.ofLexeme? (String.ofList w)).map fun t =>
      if t.kind = .thisWord then .receiver ⟨t, ()⟩ else .variable ⟨t, ()⟩

/-- What an operator with its operands stands for. -/
def Expr.ofOperator? (head : String) (parts : List Tree) : Option Tree :=
  (Token.ofLexeme? head).bind fun op =>
    match parts with
    | [operand] => some (.unary op operand)
    | [left, right] =>
      some (if op.kind ∈ [.andWord, .orWord] then .logical left op right else .binary left op right)
    | _ => none

/-- What a list stands for.  Where a name belongs, it was read as a variable. -/
def Expr.ofParts? (head : String) (parts : List Tree) : Option Tree :=
  match head with
  | "array" => some (.array parts)
  | "group" => match parts with
    | [inner] => some (.grouping inner)
    | _ => none
  | "?" => match parts with
    | [condition, yes, no] => some (.conditional condition yes no)
    | _ => none
  | "=" => match parts with
    | [.variable ref, value] => some (.assign ref value)
    | _ => none
  | "inc" => match parts with
    | [.variable ref] => some (.step .up ref)
    | _ => none
  | "dec" => match parts with
    | [.variable ref] => some (.step .down ref)
    | _ => none
  | "call" => match parts with
    | callee :: args => (Token.ofLexeme? ")").map (.call callee · args)
    | [] => none
  | "." => match parts with
    | [object, .variable ref] => some (.get object ref.name false)
    | _ => none
  | ".=" => match parts with
    | [object, .variable ref, value] => some (.set object ref.name value false)
    | _ => none
  | "super" => match parts with
    | [.variable ref] => (Token.ofLexeme? "super").map (.inherited ⟨·, ()⟩ ref.name)
    | _ => none
  | _ => Expr.ofOperator? head parts

mutual

/-- The expression that a form stands for. -/
def Form.tree? : Form → Option Tree
  | .word w => Expr.ofWord? w
  | .quoted s => some (.literal (.string s))
  | .list head items => (Form.trees? items).bind (Expr.ofParts? (String.ofList head))

/-- The expressions that forms stand for. -/
def Form.trees? : List Form → Option (List Tree)
  | [] => some []
  | f :: rest => f.tree?.bind fun e => (Form.trees? rest).map (e :: ·)

end

/-! ## Lexemes -/

/-- A name begins with a letter and is not reserved. -/
lemma Lexeme.of_identifier {text : List Char} {kind : Kind} {literal : Option Literal}
    (h : Lexeme text kind literal) (hkind : kind = .identifier) :
    ∃ c rest, text = c :: rest ∧ isLetter c = true ∧ (∀ d ∈ rest, isWordChar d = true)
      ∧ Kind.ofWord (String.ofList text) = .identifier := by
  cases h with
  | mark hmark =>
      have hmarks : ∀ entry ∈ Kind.marks, entry.2 ≠ .identifier := by decide
      exact absurd hkind (hmarks _ hmark)
  | word hc hrest => exact ⟨_, _, rfl, hc, hrest, hkind⟩
  | string => cases hkind
  | number => cases hkind

/-- The marks and the reserved words, each with its kind. -/
def Kind.spellings : List (String × Kind) :=
  Kind.marks.map (fun entry => (String.ofList entry.1, entry.2)) ++ Kind.keywords

namespace Token

variable {t : Token}

/-- The token is lexed, and it is no name that is spelled like a truth value. -/
structure Clear (t : Token) : Prop where
  lexed : t.Lexed
  name : t.kind = .identifier → t.lexeme ≠ "True" ∧ t.lexeme ≠ "False"

lemma Lexed.mem_spellings (h : t.Lexed) :
    (t.lexeme, t.kind) ∈ Kind.spellings ∨ t.kind ∈ [.identifier, .string, .number] := by
  obtain ⟨kind, lexeme, literal, line⟩ := t
  unfold Lexed at h
  dsimp only at h ⊢
  generalize htext : lexeme.toList = text at h
  cases h with
  | mark hmark =>
      refine .inl (List.mem_append_left _ (List.mem_map.mpr ⟨_, hmark, ?_⟩))
      rw [← htext, String.ofList_toList]
  | word =>
      rw [← htext, String.ofList_toList]
      by_cases hkind : Kind.ofWord lexeme = .identifier
      · exact .inr (by simp [hkind])
      · exact .inl (List.mem_append_right _ (Kind.mem_keywords_of_ofWord hkind))
  | string => exact .inr (by simp)
  | number => exact .inr (by simp)

/-- A mark or a reserved word has one spelling. -/
lemma Lexed.lexeme_eq (h : t.Lexed) {text : String} (htext : (text, t.kind) ∈ Kind.spellings) :
    t.lexeme = text := by
  have hone : ∀ a ∈ Kind.spellings, ∀ b ∈ Kind.spellings, a.2 = b.2 → a.1 = b.1 := by decide +kernel
  have hkinds : ∀ a ∈ Kind.spellings, a.2 ∉ [Kind.identifier, .string, .number] := by decide +kernel
  rcases h.mem_spellings with hmem | hmem
  · exact hone _ hmem _ htext rfl
  · exact absurd hmem (hkinds _ htext)

end Token

lemma isPlain_of_isWordChar {c : Char} (h : isWordChar c = true) : isPlain c = true := by
  have hno : ∀ d ∈ [' ', '(', ')', '\'', '"'], isWordChar d = false := by
    simp [isWordChar, isLetter]
  by_contra hc
  simp only [isPlain, decide_eq_true_eq, not_not] at hc
  rw [hno c hc] at h
  cases h

lemma isPlain_of_isDigit {c : Char} (h : c.isDigit = true) : isPlain c = true := by
  refine isPlain_of_isWordChar ?_
  rw [isWordChar, h]
  simp

/-! ## What forms say -/

namespace Form

/-- The form is well made and stands for the expression. -/
structure Says (f : Form) (e : Tree) : Prop where
  proper : f.Proper
  tree : f.tree? = some e

/-- The forms stand for the expressions. -/
structure SayEach (fs : List Form) (es : List Tree) : Prop where
  proper : ProperAll fs
  trees : trees? fs = some es

variable {f : Form} {fs : List Form} {e : Tree} {es : List Tree}

lemma sayEach_nil : SayEach [] [] := ⟨trivial, rfl⟩

lemma Says.cons (h : f.Says e) (hrest : SayEach fs es) : SayEach (f :: fs) (e :: es) :=
  ⟨⟨h.proper, hrest.proper⟩, by rw [trees?, h.tree, hrest.trees, Option.bind_some, Option.map_some]⟩

lemma Says.one (h : f.Says e) : SayEach [f] [e] := h.cons sayEach_nil

/-- A list says what its head makes of what its items say. -/
lemma SayEach.list {head : String} (h : SayEach fs es) (hhead : ∀ c ∈ head.toList, isPlain c = true)
    (hparts : Expr.ofParts? head es = some e) : (Form.list head.toList fs).Says e :=
  ⟨⟨hhead, h.proper⟩, by rw [tree?, h.trees, Option.bind_some, String.ofList_toList, hparts]⟩

end Form

/-! ## Words -/

lemma Literal.lookup_words_eq_none {w : String}
    (h : ∀ entry ∈ Literal.words, w ≠ entry.1) : Literal.words.lookup w = none := by
  rw [List.lookup_eq_none_iff]
  exact fun entry hentry => bne_iff_ne.mpr (h entry hentry)

/-- A literal value that has a word of its own. -/
lemma Literal.says_word : ∀ entry ∈ Literal.words,
    (Form.word entry.1.toList).Says (.literal entry.2) := by
  have hproper : ∀ entry ∈ Literal.words, entry.1.toList ≠ [] ∧ ∀ c ∈ entry.1.toList, isPlain c = true := by
    simp [Literal.words, isPlain]
  intro entry hentry
  refine ⟨hproper entry hentry, ?_⟩
  rw [Form.tree?, Expr.ofWord?, String.ofList_toList]
  simp only [Literal.words, List.mem_cons, List.not_mem_nil, or_false] at hentry
  rcases hentry with rfl | rfl | rfl | rfl <;> rfl

lemma Token.Clear.says_name {t : Token} (h : t.Clear) (hkind : t.kind = .identifier) :
    t.form.Says (.variable ⟨t.unplaced, ()⟩) := by
  obtain ⟨c, rest, htext, hc, hrest, hword⟩ := Lexeme.of_identifier h.lexed hkind
  rw [String.ofList_toList] at hword
  have hlookup : Literal.words.lookup t.lexeme = none := by
    refine Literal.lookup_words_eq_none ?_
    simp only [Literal.words, List.forall_mem_cons]
    refine ⟨?_, (h.name hkind).1, (h.name hkind).2, ?_, by simp⟩
    · rintro heq
      rw [heq] at hword
      exact absurd hword (by decide)
    · rintro heq
      rw [heq] at htext
      obtain rfl := (List.cons.inj htext).1
      exact absurd hc (by decide)
  have hdigit : c.isDigit = false := by
    by_contra hd
    rw [isLetter_of_isDigit (by simpa using hd)] at hc
    cases hc
  refine ⟨⟨by simp [htext], ?_⟩, ?_⟩
  · rw [htext, List.forall_mem_cons]
    refine ⟨isPlain_of_isWordChar ?_, fun d hd => isPlain_of_isWordChar (hrest d hd)⟩
    rw [isWordChar, hc, Bool.true_or]
  · rw [Token.form, Form.tree?, Expr.ofWord?, String.ofList_toList, hlookup, htext,
      h.lexed.ofLexeme?]
    simp [hdigit, hkind, Token.unplaced]

/-- A receiver is always written in the same way. -/
lemma Token.Lexed.says_receiver {t : Token} (h : t.Lexed) (hkind : t.kind = .thisWord) :
    (Form.word "this".toList).Says (.receiver ⟨t.unplaced, ()⟩) := by
  have htext : t.lexeme = "this" := h.lexeme_eq (by rw [hkind]; decide +kernel)
  have hread := h.ofLexeme?
  rw [htext] at hread
  refine ⟨⟨by simp, by simp [isPlain]⟩, ?_⟩
  rw [Form.tree?, Expr.ofWord?, String.ofList_toList, hread]
  simp [Literal.words, List.lookup, hkind, Token.unplaced]

/-! ## Numbers -/

lemma Numeral.magnitude_le {text : List Char} {x : Float} (h : Numeral text x) :
    Double.magnitude x ≤ Double.infinityBits := by
  cases h <;>
    exact (Double.magnitude_ofMagnitude Double.nearestMagnitude_le).trans_le Double.nearestMagnitude_le

lemma Lexeme.of_number {text : List Char} {kind : Kind} {x : Float}
    (h : Lexeme text kind (some (.number x))) : Numeral text x := by
  cases h with
  | number hnumeral => exact hnumeral

/-- Every number that a token stands for is a number. -/
lemma Token.Lexed.magnitude_le {t : Token} (h : t.Lexed) {x : Float}
    (hvalue : t.denotes? = some (.number x)) : Double.magnitude x ≤ Double.infinityBits := by
  have hliteral (heq : t.literal.getD .zilch = .number x) : Double.magnitude x ≤ Double.infinityBits := by
    unfold Token.Lexed at h
    cases hliteral : t.literal with
    | none =>
        rw [hliteral] at heq
        cases heq
    | some value =>
        rw [hliteral] at heq h
        obtain rfl : value = .number x := heq
        exact h.of_number.magnitude_le
  unfold Token.denotes? at hvalue
  split at hvalue
  case h_4 =>
    cases hvalue
    exact (Double.magnitude_ofMagnitude le_rfl).le
  case h_5 | h_6 => exact hliteral (Option.some.inj hvalue)
  all_goals cases hvalue

/-- A number without a sign is told by its text. -/
lemma Literal.says_number {x : Float} (hsign : Double.isNegative x = false)
    (hnumber : Double.magnitude x ≤ Double.infinityBits) :
    (Literal.number x).form.Says (.literal (.number x)) := by
  rcases hnumber.lt_or_eq with hfinite | hinfinite
  · have hmark : Layout.display.mark = String.singleton 'E' := rfl
    have htext := Layout.display.toList_text hmark hfinite
    obtain ⟨hproper, -, -⟩ := Layout.display.form_spec hmark hfinite
    rw [hsign, if_neg Bool.false_ne_true, List.nil_append] at htext
    obtain ⟨c, more, hwhole⟩ := List.exists_cons_of_ne_nil hproper.nonempty
    have hdigit : c.isDigit = true := hproper.whole c (by simp [hwhole])
    have hcons : ∃ rest, (Layout.display.text x).toList = c :: rest := by
      rw [htext, Written.text, hwhole]
      exact ⟨_, rfl⟩
    obtain ⟨rest, hcons⟩ := hcons
    have hread : Double.ofNumeral 'E' (Layout.display.text x).toList = x :=
      Layout.ofNumeral_text hmark (by decide) (by decide) ((Double.sort_iff x).1.mpr hfinite)
    refine ⟨⟨by simp [Literal.display, hcons], ?_⟩, ?_⟩
    · rw [Literal.display, htext]
      exact Written.forall_mem_text (fun _ => isPlain_of_isDigit) (by decide) (by decide) (by decide)
        (by decide) hproper
    · have hlookup : Literal.words.lookup (Layout.display.text x) = none := by
        refine Literal.lookup_words_eq_none fun entry hentry heq => ?_
        have hfirst : ∀ entry ∈ Literal.words, ∀ d ∈ entry.1.toList.head?, d.isDigit = false := by
          simp [Literal.words]
        have hno := hfirst entry hentry c (by rw [← heq, hcons]; rfl)
        rw [hdigit] at hno
        cases hno
      rw [Literal.form, Form.tree?, Expr.ofWord?, Literal.display, String.ofList_toList, hlookup, hread, hcons]
      · simp [hdigit]
      · simp
  · obtain rfl : Double.infinity = x := by
      rw [← Double.ofMagnitude_magnitude x, hsign, hinfinite]
      rfl
    exact Literal.says_word ("+inf", .number Double.infinity) (by simp [Literal.words])

lemma Token.Clear.says_literal {t : Token} (h : t.Clear) {value : Literal}
    (hvalue : t.denotes? = some value) : value.form.Says (.literal value) := by
  cases value with
  | zilch => exact Literal.says_word ("zilch", .zilch) (by simp [Literal.words])
  | bool b =>
      cases b with
      | true => exact Literal.says_word ("True", .bool true) (by simp [Literal.words])
      | false => exact Literal.says_word ("False", .bool false) (by simp [Literal.words])
  | number x => exact Literal.says_number (h.lexed.denotes? hvalue) (h.lexed.magnitude_le hvalue)
  | string s => exact ⟨trivial, rfl⟩

/-! ## Operators -/

/-- The operators, each with its kind. -/
def Kind.operators : List (String × Kind) :=
  [("!", .bang), ("-", .minus), ("+", .plus), ("*", .star), ("/", .slash), ("^", .caret),
   ("mod", .modWord), ("div", .divWord), ("<", .lesser), ("<=", .lesserEqual), (">", .greater),
   (">=", .greaterEqual), ("==", .equalEqual), ("!=", .bangEqual), ("and", .andWord), ("or", .orWord)]

/-- An operator is a head like no other. -/
lemma Kind.ofParts?_operators : ∀ entry ∈ Kind.operators, entry ∈ Kind.spellings
    ∧ (∀ c ∈ entry.1.toList, isPlain c = true)
    ∧ ∀ parts, Expr.ofParts? entry.1 parts = Expr.ofOperator? entry.1 parts := by
  have hspelled : ∀ entry ∈ Kind.operators, entry ∈ Kind.spellings := by decide +kernel
  have hplain : ∀ entry ∈ Kind.operators, ∀ c ∈ entry.1.toList, isPlain c = true := by
    simp [Kind.operators, isPlain]
  intro entry hentry
  refine ⟨hspelled entry hentry, hplain entry hentry, fun parts => ?_⟩
  simp only [Kind.operators, List.mem_cons, List.not_mem_nil, or_false] at hentry
  rcases hentry with rfl | rfl | rfl | rfl | rfl | rfl | rfl | rfl | rfl | rfl | rfl | rfl | rfl | rfl | rfl
    | rfl <;> rfl

lemma Kind.mem_operators_of_rung {kind : Kind} {r : Nat} (h : kind.rung = some r) (hlow : 1 ≤ r)
    (hhigh : r ≤ 8) (hne : r ≠ 3) : ∃ text, (text, kind) ∈ Kind.operators := by
  cases kind <;> simp_all [Kind.rung, Kind.operators] <;> omega

/-- Operands after an operator say the operation. -/
lemma Form.SayEach.operator {fs : List Form} {es : List Tree} {e : Tree} {op : Token}
    (h : Form.SayEach fs es) (hop : op.Lexed) (hkind : ∃ text, (text, op.kind) ∈ Kind.operators)
    (hparts : Expr.ofOperator? op.lexeme es = some e) : (Form.list op.lexeme.toList fs).Says e := by
  obtain ⟨text, hmem⟩ := hkind
  obtain ⟨hspelled, hplain, hoperator⟩ := Kind.ofParts?_operators _ hmem
  have htext : op.lexeme = text := hop.lexeme_eq hspelled
  rw [← htext] at hplain hoperator
  exact h.list hplain ((hoperator es).trans hparts)

/-! ## Expressions -/

lemma Token.Lexed.ofOperator?_one {op : Token} (h : op.Lexed) (operand : Tree) :
    Expr.ofOperator? op.lexeme [operand] = some (.unary op.unplaced operand) := by
  rw [Expr.ofOperator?, h.ofLexeme?, Option.bind_some, Token.unplaced]

lemma Token.Lexed.ofOperator?_two {op : Token} (h : op.Lexed) (left right : Tree) :
    Expr.ofOperator? op.lexeme [left, right]
      = some (if op.kind ∈ [.andWord, .orWord] then .logical left op.unplaced right
          else .binary left op.unplaced right) := by
  rw [Expr.ofOperator?, h.ofLexeme?, Option.bind_some, Token.unplaced]
  rfl

lemma Expr.says_binary {left right : Tree} {op : Token} (hop : op.Lexed)
    (hkind : ∃ r, op.kind.rung = some r ∧ 4 ≤ r ∧ r ≤ 8) (hleft : left.form.Says left.unplaced)
    (hright : right.form.Says right.unplaced) :
    (Expr.binary left op right).form.Says (Expr.binary left op right).unplaced := by
  obtain ⟨r, hrung, hlow, hhigh⟩ := hkind
  have hmem := Kind.mem_operators_of_rung hrung (by omega) hhigh (by omega)
  refine (hleft.cons hright.one).operator hop hmem ?_
  rw [hop.ofOperator?_two, if_neg, Expr.unplaced]
  intro hword
  simp only [List.mem_cons, List.not_mem_nil, or_false] at hword
  rcases hword with hword | hword <;>
  · rw [hword] at hrung
    obtain rfl := Option.some.inj hrung
    omega

variable {inside : Bool}

mutual

/-- **The form of an expression says the expression**, apart from lines and flags. -/
theorem Expr.says_form : ∀ {e : Tree} {ts : List Token}, e.Spells inside ts → (∀ t ∈ ts, t.Clear) →
    e.form.Says e.unplaced
  | .literal value, _, h, hts => by
      obtain ⟨t, rfl, hvalue⟩ := h
      exact (hts t List.mem_cons_self).says_literal hvalue
  | .array items, _, h, hts => by
      obtain ⟨_, _, _, texts, rfl, -, -, hcommas, hitems, -⟩ := h
      simp only [List.forall_mem_cons, List.forall_mem_append] at hts
      exact (Expr.sayEach_forms hitems (hcommas.forall_mem hts.2.1)).list (by simp [isPlain]) rfl
  | .grouping inner, _, h, hts => by
      obtain ⟨_, _, _, rfl, -, -, hinner⟩ := h
      simp only [List.forall_mem_cons, List.forall_mem_append] at hts
      exact (Expr.says_form (e := inner) hinner hts.2.1).one.list (by simp [isPlain]) rfl
  | .unary op operand, _, h, hts => by
      obtain ⟨_, rfl, hoperand, hkind, -⟩ := h
      simp only [List.forall_mem_cons] at hts
      refine (Expr.says_form hoperand hts.2).one.operator hts.1.lexed ?_ (hts.1.lexed.ofOperator?_one _)
      simp only [List.mem_cons, List.not_mem_nil, or_false] at hkind
      rcases hkind with hkind | hkind <;> simp [hkind, Kind.operators]
  | .binary _ _ _, _, h, hts => by
      obtain ⟨_, _, rfl, hleft, hright, r, hrung, hlow, hhigh, -⟩ := h
      simp only [List.forall_mem_cons, List.forall_mem_append] at hts
      exact Expr.says_binary hts.2.1.lexed ⟨r, hrung, hlow, hhigh⟩ (Expr.says_form hleft hts.1)
        (Expr.says_form hright hts.2.2)
  | .logical left op right, _, h, hts => by
      obtain ⟨_, _, rfl, hleft, hright, r, hrung, hlow, hhigh, -⟩ := h
      simp only [List.forall_mem_cons, List.forall_mem_append] at hts
      have hmem := Kind.mem_operators_of_rung hrung hlow (by omega) (by omega)
      refine ((Expr.says_form hleft hts.1).cons (Expr.says_form hright hts.2.2).one).operator
        hts.2.1.lexed hmem ?_
      have hword : op.kind ∈ [.andWord, .orWord] := by
        cases hkind : op.kind <;> simp_all [Kind.rung] <;> omega
      rw [hts.2.1.lexed.ofOperator?_two, if_pos hword, Expr.unplaced]
  | .conditional _ _ _, _, h, hts => by
      obtain ⟨_, _, _, _, _, rfl, -, -, hcond, hyes, hno, -⟩ := h
      simp only [List.forall_mem_cons, List.forall_mem_append] at hts
      have hitems := (Expr.says_form hcond hts.1).cons ((Expr.says_form hyes hts.2.2.1).cons
        (Expr.says_form hno hts.2.2.2.2).one)
      exact hitems.list (by simp [isPlain]) rfl
  | .variable _, _, h, hts => by
      obtain ⟨rfl, hkind⟩ := h
      exact (hts _ List.mem_cons_self).says_name hkind
  | .assign _ _, _, h, hts => by
      obtain ⟨_, _, rfl, hkind, hvalue⟩ := h
      simp only [List.forall_mem_cons] at hts
      refine ((hts.1.says_name hkind).cons (Form.Says.one ?_)).list (by simp [isPlain]) rfl
      rcases hvalue with ⟨-, hvalue⟩ | hvalue
      · exact Expr.says_form hvalue hts.2.2
      · exact Expr.says_form_of_compound hts.1 hkind hvalue hts.2.2
  | .step direction _, _, h, hts => by
      obtain ⟨_, rfl, -, hkind⟩ := h
      simp only [List.forall_mem_cons] at hts
      cases direction <;> exact (hts.2.1.says_name hkind).one.list (by simp [isPlain, Direction.word]) rfl
  | .call _ paren _, _, h, hts => by
      obtain ⟨_, _, _, _, rfl, -, hcallee, hcommas, hargs, -, hparen, -⟩ := h
      simp only [List.forall_mem_cons, List.forall_mem_append] at hts
      obtain ⟨hts₁, -, hts₂, hclear, -⟩ := hts
      have htext : paren.lexeme = ")" := hclear.lexed.lexeme_eq (by rw [hparen]; decide +kernel)
      have hread := hclear.lexed.ofLexeme?
      rw [htext] at hread
      refine ((Expr.says_form hcallee hts₁).cons
        (Expr.sayEach_forms hargs (hcommas.forall_mem hts₂))).list (by simp [isPlain]) ?_
      simp only [Expr.ofParts?, hread, Option.map_some]
      rfl
  | .get _ _ _, _, h, hts => by
      obtain ⟨_, _, rfl, -, hobject, -, hkind, -⟩ := h
      simp only [List.forall_mem_cons, List.forall_mem_append] at hts
      exact ((Expr.says_form hobject hts.1).cons (hts.2.2.1.says_name hkind).one).list (by simp [isPlain]) rfl
  | .set _ _ _ _, _, h, hts => by
      obtain ⟨_, _, _, _, rfl, -, -, hobject, hvalue, -, hkind, -⟩ := h
      simp only [List.forall_mem_cons, List.forall_mem_append] at hts
      have hitems := (Expr.says_form hobject hts.1).cons ((hts.2.2.1.says_name hkind).cons
        (Expr.says_form hvalue hts.2.2.2.2).one)
      exact hitems.list (by simp [isPlain]) rfl
  | .receiver _, _, h, hts => by
      obtain ⟨rfl, hkind⟩ := h
      exact (hts _ List.mem_cons_self).lexed.says_receiver hkind
  | .inherited ref _, _, h, hts => by
      obtain ⟨_, rfl, -, hsuper, hkind⟩ := h
      simp only [List.forall_mem_cons] at hts
      have htext : ref.name.lexeme = "super" := hts.1.lexed.lexeme_eq (by rw [hsuper]; decide +kernel)
      have hread := hts.1.lexed.ofLexeme?
      rw [htext] at hread
      refine (hts.2.2.1.says_name hkind).one.list (by simp [isPlain]) ?_
      simp only [Expr.ofParts?, hread, Option.map_some]
      rfl

/-- The value that a compound assignment computes. -/
theorem Expr.says_form_of_compound {ref : Reference Unit} {equals : Token} (href : ref.name.Clear)
    (hkind : ref.name.kind = .identifier) :
    ∀ {value : Tree} {ts : List Token}, Expr.SpellsCompound inside ref equals value ts →
    (∀ t ∈ ts, t.Clear) → value.form.Says value.unplaced
  | .binary _ _ _, _, h, hts => by
      obtain ⟨hcompound, rfl, rfl, hright⟩ := h
      exact Expr.says_binary equals.lexed_operatorOf (Token.operatorOf_rung hcompound) (href.says_name hkind)
        (Expr.says_form hright hts)
  | .literal _, _, h, _ | .array _, _, h, _ | .grouping _, _, h, _ | .unary _ _, _, h, _
  | .logical _ _ _, _, h, _ | .conditional _ _ _, _, h, _ | .variable _, _, h, _
  | .assign _ _, _, h, _ | .step _ _, _, h, _ | .call _ _ _, _, h, _ | .get _ _ _, _, h, _
  | .set _ _ _ _, _, h, _ | .receiver _, _, h, _ | .inherited _ _, _, h, _ => h.elim

theorem Expr.sayEach_forms : ∀ {items : List Tree} {texts : List (List Token)},
    Expr.SpellsEach inside items texts → (∀ text ∈ texts, ∀ t ∈ text, t.Clear) →
    Form.SayEach (Expr.forms items) (Expr.unplacedAll items)
  | [], _, _, _ => Form.sayEach_nil
  | _ :: _, _, h, hts => by
      obtain ⟨_, _, rfl, he, hrest⟩ := h
      simp only [List.forall_mem_cons] at hts
      exact (Expr.says_form he hts.1).cons (Expr.sayEach_forms hrest hts.2)

end

end KScript

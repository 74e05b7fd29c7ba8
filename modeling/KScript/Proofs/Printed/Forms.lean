import KScript.Proofs.Text.Quoted
import Mathlib.Data.List.TakeWhile

/-!
# Words in parentheses

A form is a word, a quoted text, or a list: a word and more forms, in parentheses and with single spaces
between them.  The text of a form tells the form and where it ends (`Form.text_append_inj`), since a word
holds no character that ends it and a quoted text says itself where it is closed.
-/

namespace KScript

/-- A word, a quoted text, or a list that begins with a word. -/
inductive Form where
  | word (text : List Char)
  | quoted (text : String)
  | list (head : List Char) (items : List Form)

/-- The characters that a word is made of. -/
def isPlain (c : Char) : Bool := c ∉ [' ', '(', ')', '\'', '"']

/-- Nothing goes on with a word. -/
def EndsWord (rest : List Char) : Prop := ∀ c ∈ rest.head?, isPlain c = false

namespace Form

mutual

/-- The text of a form. -/
def text : Form → List Char
  | word w => w
  | quoted s => (Text.quoted s).toList
  | list head items => '(' :: (head ++ tail items)

/-- The text of a list after its first word. -/
def tail : List Form → List Char
  | [] => [')']
  | f :: rest => ' ' :: (f.text ++ tail rest)

end

mutual

/-- The words of the form are words. -/
def Proper : Form → Prop
  | word w => w ≠ [] ∧ ∀ c ∈ w, isPlain c = true
  | quoted _ => True
  | list head items => (∀ c ∈ head, isPlain c = true) ∧ ProperAll items

/-- All of the forms. -/
def ProperAll : List Form → Prop
  | [] => True
  | f :: rest => f.Proper ∧ ProperAll rest

end

/-! ## Reading a form -/

lemma endsWord_tail (items : List Form) (rest : List Char) : EndsWord (tail items ++ rest) := by
  cases items <;> simp [tail, EndsWord, isPlain]

/-- A word ends where there is a character that is not part of words. -/
lemma word_append_inj {w v rest rest' : List Char} (hw : ∀ c ∈ w, isPlain c = true)
    (hv : ∀ c ∈ v, isPlain c = true) (hrest : EndsWord rest) (hrest' : EndsWord rest')
    (h : w ++ rest = v ++ rest') : w = v ∧ rest = rest' := by
  have hcut : ∀ {u more : List Char}, (∀ c ∈ u, isPlain c = true) → EndsWord more →
      (u ++ more).takeWhile isPlain = u := by
    intro u more hu hmore
    rw [List.takeWhile_append_of_pos hu]
    cases more with
    | nil => simp
    | cons c more => simp [hmore c rfl]
  have heq : w = v := by rw [← hcut hw hrest, h, hcut hv hrest']
  subst heq
  exact ⟨rfl, List.append_cancel_left h⟩

/-- Words, quoted texts and lists begin in their own ways. -/
def Opens : Form → Char → Prop
  | word _, c => isPlain c = true
  | quoted _, c => c = '\'' ∨ c = '"'
  | list _ _, c => c = '('

lemma exists_text_eq_cons {f : Form} (h : f.Proper) : ∃ c more, f.text = c :: more ∧ f.Opens c := by
  cases f with
  | word w =>
      obtain ⟨c, more, rfl⟩ := List.exists_cons_of_ne_nil h.1
      exact ⟨c, more, rfl, h.2 c List.mem_cons_self⟩
  | quoted s => exact ⟨_, _, Text.toList_quoted s, Text.quoteFor_cases _⟩
  | list head items => exact ⟨_, _, rfl, rfl⟩

/-- Forms of different sorts do not begin in the same way. -/
lemma exists_opens_of_text_append {f g : Form} {rest rest' : List Char} (hf : f.Proper) (hg : g.Proper)
    (h : f.text ++ rest = g.text ++ rest') : ∃ c, f.Opens c ∧ g.Opens c := by
  obtain ⟨c, more, hc, hfirst⟩ := exists_text_eq_cons hf
  obtain ⟨d, more', hd, hfirst'⟩ := exists_text_eq_cons hg
  rw [hc, hd] at h
  obtain rfl : c = d := (List.cons.inj h).1
  exact ⟨c, hfirst, hfirst'⟩

mutual

/-- **The text of a form tells the form and where it ends.** -/
theorem text_append_inj (f : Form) {g : Form} {rest rest' : List Char} (hf : f.Proper) (hg : g.Proper)
    (hrest : EndsWord rest) (hrest' : EndsWord rest') (h : f.text ++ rest = g.text ++ rest') :
    f = g ∧ rest = rest' := by
  obtain ⟨c, hfirst, hfirst'⟩ := exists_opens_of_text_append hf hg h
  cases f with
  | word w =>
      cases g with
      | word v =>
          obtain ⟨rfl, hrest⟩ := word_append_inj hf.2 hg.2 hrest hrest' h
          exact ⟨rfl, hrest⟩
      | quoted _ | list _ _ => grind [Opens, isPlain]
  | quoted s =>
      cases g with
      | quoted t =>
          obtain ⟨rfl, hrest⟩ := Text.quoted_append_inj h
          exact ⟨rfl, hrest⟩
      | word _ | list _ _ => grind [Opens, isPlain]
  | list head items =>
      cases g with
      | list head' items' =>
          simp only [text, List.cons_append, List.append_assoc, List.cons.injEq, true_and] at h
          obtain ⟨rfl, htail⟩ := word_append_inj hf.1 hg.1 (endsWord_tail _ _) (endsWord_tail _ _) h
          obtain ⟨rfl, hrest⟩ := tail_append_inj items hf.2 hg.2 htail
          exact ⟨rfl, hrest⟩
      | word _ | quoted _ => grind [Opens, isPlain]

theorem tail_append_inj (fs : List Form) {gs : List Form} {rest rest' : List Char} (hf : ProperAll fs)
    (hg : ProperAll gs) (h : tail fs ++ rest = tail gs ++ rest') : fs = gs ∧ rest = rest' := by
  cases fs with
  | nil =>
      cases gs with
      | nil => exact ⟨rfl, by simpa [tail] using h⟩
      | cons g gs => simp [tail] at h
  | cons f fs =>
      cases gs with
      | nil => simp [tail] at h
      | cons g gs =>
          simp only [tail, List.cons_append, List.append_assoc, List.cons.injEq, true_and] at h
          obtain ⟨rfl, htail⟩ := text_append_inj f hf.1 hg.1 (endsWord_tail _ _) (endsWord_tail _ _) h
          obtain ⟨rfl, hrest⟩ := tail_append_inj fs hf.2 hg.2 htail
          exact ⟨rfl, hrest⟩

end

end Form

end KScript

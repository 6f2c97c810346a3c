import ScriptReader.Proofs.Number.ReadBack
import ScriptReader.Proofs.Text.Quoted
import ScriptReader.Tree

/-!
# Proofs/Printed/Form — the forms that printed expressions take

A printed expression is a word, a text between double quotes, or a group in parentheses, which has a
head and parts.  A word ends where a character stands that no word has, and a group at its closing
parenthesis; so a form is known from its text, and so is where it ends (`Form.eq_of_append_eq`).
-/

namespace ScriptReader

/-! ## Heads -/

/-- What a group in parentheses begins with. -/
inductive Head where
  | array
  | dictionary
  | entry
  | call
  | operator (op : Operator)
  | builtIn (function : BuiltIn)
  | print
  | jump (kind : Jump)
  deriving DecidableEq

namespace Head

def text : Head → String
  | array => "array"
  | dictionary => "dict"
  | entry => ":"
  | call => "call"
  | operator op => op.symbol
  | builtIn function => function.name
  | print => "print"
  | jump kind => kind.keyword

/-- The heads of groups: of the operators, those that have operands when an expression is read. -/
def all : List Head :=
  [array, dictionary, entry, call, builtIn .length, builtIn .dictionaryKeys,
    builtIn .dictionaryValues, print, jump .continueLoop, jump .breakLoop, jump .returnValue] ++
  (Operator.all.filter (· ∉ [Operator.call, .array, .dictionary, .parenthesis])).map operator

theorem text_inj {h h' : Head} (hh : h ∈ all) (hh' : h' ∈ all) (heq : h.text = h'.text) :
    h = h' := by
  have hinj : ∀ h ∈ all, ∀ h' ∈ all, h.text = h'.text → h = h' := by decide +kernel
  exact hinj h hh h' hh' heq

/-- Does the character belong to a head? -/
def isPart (c : Char) : Bool := c != ' ' && c != ')'

theorem isPart_of_mem_text {h : Head} (hh : h ∈ all) : ∀ c ∈ h.text.toList, isPart c := by
  have hparts : ∀ h ∈ all, h.text.toList.all isPart := by decide +kernel
  exact List.all_eq_true.mp (hparts h hh)

end Head

/-! ## Forms -/

/-- What an expression is printed as. -/
inductive Form where
  | word (text : String)
  | quoted (s : String)
  | group (head : Head) (parts : List Form)

/-- May the character stand in a printed name or number? -/
def isPlain (c : Char) : Bool := Text.isWordPart c || isNumeralPart c

/-- The text does not go on like a name or a number. -/
def Stops (rest : List Char) : Prop := ∀ c ∈ rest.head?, isPlain c = false

theorem stops_cons {c : Char} (hc : isPlain c = false) (rest : List Char) : Stops (c :: rest) := by
  intro d hd
  cases hd
  exact hc

namespace Form

mutual

def text : Form → List Char
  | word s => s.toList
  | quoted s => (Text.quoted s).toList
  | group head parts => '(' :: (head.text.toList ++ (textEach parts ++ [')']))

/-- Forms with a blank before each. -/
def textEach : List Form → List Char
  | [] => []
  | f :: fs => ' ' :: (f.text ++ textEach fs)

end

theorem textEach_eq_flatMap (fs : List Form) : textEach fs = fs.flatMap fun f => ' ' :: f.text := by
  induction fs with
  | nil => rw [textEach]; rfl
  | cons f fs ih => rw [textEach, ih]; rfl

/-- The words of a form are written as names or numbers are, and its groups have proper heads. -/
inductive IsWritten : Form → Prop
  | word {s : String} (hne : s.toList ≠ []) (hs : ∀ c ∈ s.toList, isPlain c) : IsWritten (word s)
  | quoted (s : String) : IsWritten (quoted s)
  | group {head : Head} {parts : List Form} (hhead : head ∈ Head.all)
      (hparts : ∀ f ∈ parts, IsWritten f) : IsWritten (group head parts)

/-- A word whose characters can be checked. -/
theorem isWritten_word {s : String} (h : s.toList ≠ [] ∧ s.toList.all isPlain) :
    (word s).IsWritten :=
  .word h.1 (List.all_eq_true.mp h.2)

/-! ## Where forms end -/

/-- What a form is, as far as its first character says. -/
inductive Shape where
  | word
  | quoted
  | group

/-- What a form is that begins with a character. -/
def Shape.ofHead (c : Char) : Shape :=
  if c = '"' then quoted else if c = '(' then group else word

def shape : Form → Shape
  | word _ => .word
  | quoted _ => .quoted
  | group .. => .group

/-- **The first character says what a form is.** -/
theorem IsWritten.shape_of_head {f : Form} (h : f.IsWritten) :
    ∃ c rest, f.text = c :: rest ∧ Shape.ofHead c = f.shape := by
  cases h with
  | @word s hne hs =>
    obtain ⟨c, rest, htext⟩ := List.exists_cons_of_ne_nil hne
    have hc : isPlain c := hs c (htext ▸ List.mem_cons_self)
    have hquote : c ≠ '"' := by rintro rfl; revert hc; decide
    have hopener : c ≠ '(' := by rintro rfl; revert hc; decide
    refine ⟨c, rest, by rw [text, htext], ?_⟩
    rw [Shape.ofHead, if_neg hquote, if_neg hopener]
    rfl
  | quoted s =>
    refine ⟨'"', s.toList.flatMap Text.writtenChar ++ ['"'], ?_, rfl⟩
    rw [text, Text.quoted, String.toList_ofList]
    rfl
  | group => exact ⟨'(', _, by rw [text], rfl⟩

theorem IsWritten.shape_eq {f f' : Form} (h : f.IsWritten) (h' : f'.IsWritten)
    {r r' : List Char} (heq : f.text ++ r = f'.text ++ r') : f.shape = f'.shape := by
  obtain ⟨c, rest, htext, hshape⟩ := h.shape_of_head
  obtain ⟨c', rest', htext', hshape'⟩ := h'.shape_of_head
  rw [htext, htext'] at heq
  obtain rfl := (List.cons.inj heq).1
  exact hshape.symm.trans hshape'

/-- A head ends before the parts of its group, or before the closing parenthesis. -/
theorem head?_textEach_append (fs : List Form) (r : List Char) :
    ∀ c ∈ (textEach fs ++ ')' :: r).head?, Head.isPart c = false := by
  intro c hc
  cases fs with
  | nil =>
    rw [textEach] at hc
    cases hc
    rfl
  | cons f fs =>
    rw [textEach] at hc
    cases hc
    rfl

/-- **Forms with a blank before each are known from their text** if each of them is, up to a
character that is neither a blank nor goes on like a word. -/
theorem eq_of_textEach_append_eq {fs fs' : List Form} {closer : Char} {r r' : List Char}
    (hform : ∀ f ∈ fs, ∀ f' ∈ fs', ∀ r r', Stops r → Stops r' →
      f.text ++ r = f'.text ++ r' → f = f' ∧ r = r')
    (hblank : closer ≠ ' ') (hcloser : isPlain closer = false)
    (h : textEach fs ++ closer :: r = textEach fs' ++ closer :: r') : fs = fs' ∧ r = r' := by
  rw [textEach_eq_flatMap, textEach_eq_flatMap] at h
  have hstops (r : List Char) (hr : r.head? = some closer) : Stops r := by
    intro c hc
    rw [hr] at hc
    cases hc
    exact hcloser
  have hne (f : Form) (r : List Char) : ((' ' :: f.text) ++ r).head? ≠ some closer :=
    fun hr => hblank (Option.some.inj hr).symm
  obtain ⟨rfl, hend⟩ := eq_of_flatMap_append_eq Stops (·.head? = some closer)
    (fun f hf f' hf' r r' hr hr' heq => hform f hf f' hf' r r' hr hr' (List.cons.inj heq).2)
    (fun f r => stops_cons (by decide) _) hstops (fun f _ => hne f) rfl rfl h
  exact ⟨rfl, (List.cons.inj hend).2⟩

/-- **A form is known from its text**, and so is where it ends. -/
theorem IsWritten.eq_of_append_eq {f f' : Form} (h : f.IsWritten) (h' : f'.IsWritten)
    {r r' : List Char} (hr : Stops r) (hr' : Stops r')
    (heq : f.text ++ r = f'.text ++ r') : f = f' ∧ r = r' := by
  have hshape := h.shape_eq h' heq
  induction h generalizing f' r r' with
  | @word s hne hs =>
    cases h' with
    | @word s' hne' hs' =>
      rw [text, text] at heq
      obtain ⟨htext, hend⟩ := eq_of_run_append_eq hs hs' hr hr' heq
      exact ⟨congrArg Form.word (String.toList_inj.mp htext), hend⟩
    | _ => cases hshape
  | quoted s =>
    cases h' with
    | quoted s' =>
      rw [text, text] at heq
      obtain ⟨rfl, hend⟩ := Text.eq_of_quoted_append_eq heq
      exact ⟨rfl, hend⟩
    | _ => cases hshape
  | @group head parts hhead hparts ih =>
    cases h' with
    | @group head' parts' hhead' hparts' =>
      rw [text, text] at heq
      simp only [List.cons_append, List.append_assoc, List.nil_append, List.cons.injEq,
        true_and] at heq
      obtain ⟨htext, hrest⟩ := eq_of_run_append_eq (Head.isPart_of_mem_text hhead)
        (Head.isPart_of_mem_text hhead') (head?_textEach_append _ _)
        (head?_textEach_append _ _) heq
      obtain rfl := Head.text_inj hhead hhead' (String.toList_inj.mp htext)
      obtain ⟨rfl, hend⟩ := eq_of_textEach_append_eq
        (fun f hf f' hf' r r' hr hr' heq =>
          ih f hf (hparts' f' hf') hr hr' heq ((hparts f hf).shape_eq (hparts' f' hf') heq))
        (by decide) (by decide) hrest
      exact ⟨rfl, hend⟩
    | _ => cases hshape

end Form

end ScriptReader

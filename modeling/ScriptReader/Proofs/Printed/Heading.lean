import ScriptReader.Proofs.Printed.Form
import ScriptReader.Proofs.Source.Following

/-!
# Proofs/Printed/Heading — a printed line is known from its text

A line is an expression or a statement in parentheses, a keyword with what follows it up to a colon,
an assignment, or the first line of a function.  The first run of its characters and what stands
behind it say which (`Heading.Shape.ofText`), and a line break is where it ends; so no two lines
have one text (`Heading.IsWritten.eq_of_append_eq`).
-/

namespace ScriptReader

/-- What stands on a line of a printed script. -/
inductive Heading where
  | plain (f : Form)
  | opener (keyword : String) (parts : List Form)
  | assignment (symbol : String) (target : Form) (indices : List Form) (value : Form)
  /-- A function's name, and its parameters with their defaults. -/
  | definition (name : Form) (parameters : List (String × Option Form))

namespace Heading

/-- An index in brackets. -/
def indexText (f : Form) : List Char := '[' :: (f.text ++ [']'])

/-- A parameter with its default. -/
def parameterText (p : String × Option Form) : List Char :=
  p.1.toList ++ match p.2 with
    | none => []
    | some f => '=' :: f.text

def text : Heading → List Char
  | plain f => f.text
  | opener keyword parts => keyword.toList ++ (Form.textEach parts ++ [':'])
  | assignment symbol target indices value =>
    '(' :: (symbol.toList ++ ' ' :: (target.text ++ (indices.flatMap indexText ++
      ' ' :: (value.text ++ [')']))))
  | definition name parameters =>
    "def".toList ++ ' ' :: (name.text ++ '(' :: (row [',', ' '] parameterText parameters ++
      [')', ':']))

/-- The line that ends a block. -/
def ending : Heading := plain (.word "end")

/-- Is the line followed by a body? -/
def opens : Heading → Bool
  | opener .. | definition .. => true
  | plain _ | assignment .. => false

/-- The keywords of lines that open a body, but for functions. -/
def keywords : List String := ["if", "elif", "else", "while", "for"]

/-- The parts of a line are written as forms and names are. -/
inductive IsWritten : Heading → Prop
  | plain {f : Form} (h : f.IsWritten) : IsWritten (plain f)
  | opener {keyword : String} {parts : List Form} (hkeyword : keyword ∈ keywords)
      (hparts : ∀ f ∈ parts, f.IsWritten) : IsWritten (opener keyword parts)
  | assignment {symbol : String} {target : Form} {indices : List Form} {value : Form}
      (hsymbol : symbol ∈ ["=", ":="]) (htarget : target.IsWritten)
      (hindices : ∀ f ∈ indices, f.IsWritten) (hvalue : value.IsWritten) :
      IsWritten (assignment symbol target indices value)
  | definition {name : Form} {parameters : List (String × Option Form)} (hname : name.IsWritten)
      (hparameters : ∀ p ∈ parameters, (Form.word p.1).IsWritten)
      (hdefaults : ∀ p ∈ parameters, ∀ f ∈ p.2, f.IsWritten) :
      IsWritten (definition name parameters)

theorem isWritten_ending : ending.IsWritten := .plain (Form.isWritten_word (by decide))

/-! ## What a line is -/

/-- What a line is, as far as its beginning says. -/
inductive Shape where
  | plain
  | assignment
  /-- It begins with a keyword. -/
  | keyword (cs : List Char)

/-- What a line is that begins a text. -/
def Shape.ofText : List Char → Shape
  | '(' :: cs =>
    if cs.takeWhile Head.isPart ∈ [['='], [':', '=']] then assignment else plain
  | cs =>
    if (cs.dropWhile isPlain).head? ∈ [some ' ', some ':'] then keyword (cs.takeWhile isPlain)
    else plain

def shape : Heading → Shape
  | Heading.plain _ => .plain
  | Heading.opener word _ => .keyword word.toList
  | Heading.assignment .. => .assignment
  | Heading.definition .. => .keyword ['d', 'e', 'f']

/-- A run of characters is a keyword if a blank or a colon stands behind it. -/
theorem Shape.ofText_run {cs r : List Char} (hne : cs ≠ []) (hcs : ∀ c ∈ cs, isPlain c)
    (hr : Stops r) :
    ofText (cs ++ r) = if r.head? ∈ [some ' ', some ':'] then keyword cs else plain := by
  have htake : (cs ++ r).takeWhile isPlain = cs := takeWhile_append_of_boundary hcs hr
  have hdrop : (cs ++ r).dropWhile isPlain = r := dropWhile_append_of_boundary hcs hr
  unfold ofText
  split
  · next ds heq =>
    obtain ⟨c, cs, rfl⟩ := List.exists_cons_of_ne_nil hne
    have hc := hcs c List.mem_cons_self
    rw [(List.cons.inj heq).1] at hc
    exact absurd hc (by decide)
  · rw [hdrop, htake]

/-- Behind an opening parenthesis, only an assignment has its symbol. -/
theorem Shape.ofText_group {cs r : List Char} (hcs : ∀ c ∈ cs, Head.isPart c)
    (hr : ∀ c ∈ r.head?, Head.isPart c = false) :
    ofText ('(' :: (cs ++ r)) = if cs ∈ [['='], [':', '=']] then assignment else plain := by
  rw [ofText, takeWhile_append_of_boundary hcs hr]

theorem isPlain_of_mem_keywords {keyword : String} (h : keyword ∈ keywords) :
    keyword.toList ≠ [] ∧ ∀ c ∈ keyword.toList, isPlain c := by
  have hall : ∀ k ∈ keywords, k.toList ≠ [] ∧ k.toList.all isPlain := by decide
  exact (hall keyword h).imp_right List.all_eq_true.mp

/-- Behind a keyword there are parts, or the colon. -/
theorem stops_textEach (parts : List Form) (r : List Char) :
    Stops (Form.textEach parts ++ ':' :: r)
      ∧ (Form.textEach parts ++ ':' :: r).head? ∈ [some ' ', some ':'] := by
  cases parts with
  | nil =>
    rw [Form.textEach]
    exact ⟨stops_cons (by decide) r, by simp⟩
  | cons f parts =>
    rw [Form.textEach]
    exact ⟨stops_cons (by decide) _, by simp⟩

/-- The symbols of assignments are no heads of other groups. -/
theorem isPart_of_symbol {symbol : String} (h : symbol ∈ ["=", ":="]) :
    (∀ c ∈ symbol.toList, Head.isPart c) ∧ symbol.toList ∈ [['='], [':', '=']] := by
  have hall : ∀ s ∈ ["=", ":="], s.toList.all Head.isPart
      ∧ s.toList ∈ [['='], [':', '=']] := by decide
  exact (hall symbol h).imp_left List.all_eq_true.mp

theorem shape_plain {f : Form} (h : f.IsWritten) (r : List Char) :
    Shape.ofText (f.text ++ '\n' :: r) = .plain := by
  cases h with
  | word hne hs =>
    rw [Form.text, Shape.ofText_run hne hs (stops_cons (by decide) r), if_neg (by simp)]
  | quoted s =>
    rw [Form.text, Text.quoted, String.toList_ofList]
    have hquote : isPlain '"' = false := by decide
    simp [Shape.ofText, hquote]
  | @group head parts hhead hparts =>
    have hsymbol : ∀ h ∈ Head.all, h.text.toList ∉ [['='], [':', '=']] := by decide +kernel
    rw [Form.text, List.cons_append, List.append_assoc, List.append_assoc, List.singleton_append,
      Shape.ofText_group (Head.isPart_of_mem_text hhead) (Form.head?_textEach_append _ _),
      if_neg (hsymbol head hhead)]

/-- **The beginning of a line says what it is.** -/
theorem IsWritten.ofText {h : Heading} (hw : h.IsWritten) (r : List Char) :
    Shape.ofText (h.text ++ '\n' :: r) = h.shape := by
  cases hw with
  | plain hf => exact shape_plain hf r
  | @opener keyword parts hkeyword hparts =>
    obtain ⟨hne, hplain⟩ := isPlain_of_mem_keywords hkeyword
    obtain ⟨hstops, hhead⟩ := stops_textEach parts ('\n' :: r)
    simp only [text, List.append_assoc, List.cons_append, List.nil_append]
    rw [Shape.ofText_run hne hplain hstops, if_pos hhead]
    rfl
  | @assignment symbol target indices value hsymbol =>
    obtain ⟨hpart, hmem⟩ := isPart_of_symbol hsymbol
    simp only [text, List.append_assoc, List.cons_append]
    rw [Shape.ofText_group hpart (fun c hc => by cases hc; rfl), if_pos hmem]
    rfl
  | definition =>
    simp only [text, List.append_assoc, List.cons_append]
    have hdef : ∀ c ∈ "def".toList, isPlain c := List.all_eq_true.mp (by decide)
    rw [Shape.ofText_run (by decide) hdef (stops_cons (by decide) _), if_pos (by simp)]
    rfl

theorem IsWritten.shape_eq {h h' : Heading} (hw : h.IsWritten) (hw' : h'.IsWritten)
    {r r' : List Char} (heq : h.text ++ '\n' :: r = h'.text ++ '\n' :: r') :
    h.shape = h'.shape := by
  rw [← hw.ofText r, heq, hw'.ofText r']

/-! ## Where lines end -/

/-- **Indices are known from their text**, up to the blank behind them. -/
theorem eq_of_indices_append_eq {fs fs' : List Form} (h : ∀ f ∈ fs, f.IsWritten)
    (h' : ∀ f ∈ fs', f.IsWritten) {r r' : List Char}
    (heq : fs.flatMap indexText ++ ' ' :: r = fs'.flatMap indexText ++ ' ' :: r') :
    fs = fs' ∧ r = r' := by
  have hindex : ∀ f ∈ fs, ∀ f' ∈ fs', ∀ r r', Stops r → Stops r' →
      indexText f ++ r = indexText f' ++ r' → f = f' ∧ r = r' := by
    intro f hf f' hf' r r' _ _ heq
    simp only [indexText, List.cons_append, List.append_assoc, List.cons.injEq, true_and] at heq
    obtain ⟨rfl, hend⟩ := (h f hf).eq_of_append_eq (h' f' hf') (stops_cons (by decide) _)
      (stops_cons (by decide) _) heq
    exact ⟨rfl, (List.cons.inj hend).2⟩
  have hblank (r : List Char) (hr : r.head? = some ' ') : Stops r := by
    intro c hc
    rw [hr] at hc
    cases hc
    decide
  have hne (f : Form) (r : List Char) : (indexText f ++ r).head? ≠ some ' ' := nofun
  obtain ⟨rfl, hend⟩ := eq_of_flatMap_append_eq Stops (·.head? = some ' ') hindex
    (fun f r => stops_cons (by decide) _) hblank (fun f _ => hne f) rfl rfl heq
  exact ⟨rfl, (List.cons.inj hend).2⟩

/-- A parameter ends where neither a name goes on nor a default begins. -/
theorem eq_of_parameter_append_eq {p p' : String × Option Form}
    (h : (Form.word p.1).IsWritten) (h' : (Form.word p'.1).IsWritten)
    (hdefault : ∀ f ∈ p.2, f.IsWritten) (hdefault' : ∀ f ∈ p'.2, f.IsWritten) {r r' : List Char}
    (hr : Stops r ∧ r.head? ≠ some '=') (hr' : Stops r' ∧ r'.head? ≠ some '=')
    (heq : parameterText p ++ r = parameterText p' ++ r') : p = p' ∧ r = r' := by
  obtain ⟨name, default?⟩ := p
  obtain ⟨name', default'?⟩ := p'
  have hstops (default? : Option Form) {r : List Char} (hr : Stops r) :
      Stops ((match default? with
        | none => []
        | some f => '=' :: f.text) ++ r) := by
    cases default? with
    | none => exact hr
    | some f => exact stops_cons (by decide) _
  simp only [parameterText, List.append_assoc] at heq
  obtain ⟨hname, hrest⟩ := h.eq_of_append_eq h' (hstops default? hr.1) (hstops default'? hr'.1) (by
    simpa only [Form.text] using heq)
  cases hname
  cases default? with
  | none =>
    cases default'? with
    | none => exact ⟨rfl, hrest⟩
    | some f' => exact absurd (congrArg List.head? hrest) hr.2
  | some f =>
    cases default'? with
    | none => exact absurd (congrArg List.head? hrest.symm) hr'.2
    | some f' =>
      obtain ⟨rfl, hend⟩ := (hdefault f rfl).eq_of_append_eq (hdefault' f' rfl) hr.1 hr'.1
        (List.cons.inj hrest).2
      exact ⟨rfl, hend⟩

/-- **Parameters are known from their text**, up to the closing parenthesis. -/
theorem eq_of_parameters_append_eq {ps ps' : List (String × Option Form)}
    (h : ∀ p ∈ ps, (Form.word p.1).IsWritten) (h' : ∀ p ∈ ps', (Form.word p.1).IsWritten)
    (hdefaults : ∀ p ∈ ps, ∀ f ∈ p.2, f.IsWritten) (hdefaults' : ∀ p ∈ ps', ∀ f ∈ p.2, f.IsWritten)
    {r r' : List Char}
    (heq : row [',', ' '] parameterText ps ++ ')' :: r
      = row [',', ' '] parameterText ps' ++ ')' :: r') : ps = ps' ∧ r = r' := by
  have hhead {p : String × Option Form} (hp : (Form.word p.1).IsWritten) (r : List Char) :
      (parameterText p ++ r).head? ≠ some ')' := by
    cases hp with
    | word hne hs =>
      obtain ⟨c, rest, hname⟩ := List.exists_cons_of_ne_nil hne
      rw [parameterText, hname]
      intro hc
      have hplain := hs c (hname ▸ List.mem_cons_self)
      cases hc
      revert hplain
      decide
  have hcloser (r : List Char) (hr : r.head? = some ')') : Stops r ∧ r.head? ≠ some '=' := by
    refine ⟨fun c hc => ?_, by rw [hr]; simp⟩
    rw [hr] at hc
    cases hc
    decide
  obtain ⟨rfl, hend⟩ := eq_of_row_append_eq (fun r => Stops r ∧ r.head? ≠ some '=')
    (·.head? = some ')')
    (fun p hp p' hp' r r' hr hr' => eq_of_parameter_append_eq (h p hp) (h' p' hp')
      (hdefaults p hp) (hdefaults' p' hp') hr hr')
    (fun r => ⟨⟨stops_cons (by decide) _, by simp⟩, by simp⟩) hcloser
    (fun p hp => hhead (hp.elim (h p) (h' p))) rfl rfl heq
  exact ⟨rfl, (List.cons.inj hend).2⟩

/-- **A line is known from its text**, and ends at the line break. -/
theorem IsWritten.eq_of_append_eq {h h' : Heading} (hw : h.IsWritten) (hw' : h'.IsWritten)
    {r r' : List Char} (heq : h.text ++ '\n' :: r = h'.text ++ '\n' :: r') : h = h' ∧ r = r' := by
  have hshape := hw.shape_eq hw' heq
  have hbreak (r : List Char) : Stops ('\n' :: r) := stops_cons (by decide) r
  cases hw with
  | plain hf =>
    cases hw' with
    | plain hf' =>
      obtain ⟨rfl, hend⟩ := hf.eq_of_append_eq hf' (hbreak r) (hbreak r') heq
      exact ⟨rfl, (List.cons.inj hend).2⟩
    | _ => cases hshape
  | @opener keyword parts hkeyword hparts =>
    cases hw' with
    | @opener keyword' parts' hkeyword' hparts' =>
      obtain rfl : keyword = keyword' := String.toList_inj.mp (Shape.keyword.inj hshape)
      simp only [text, List.append_assoc, List.cons_append, List.nil_append,
        List.append_cancel_left_eq] at heq
      obtain ⟨rfl, hend⟩ := Form.eq_of_textEach_append_eq
        (fun f hf f' hf' r r' => (hparts f hf).eq_of_append_eq (hparts' f' hf'))
        (by decide) (by decide) heq
      exact ⟨rfl, (List.cons.inj hend).2⟩
    | definition =>
      have hdef : "def" ∈ keywords := by
        rwa [← String.toList_inj.mp (Shape.keyword.inj hshape : keyword.toList = "def".toList)]
      exact absurd hdef (by decide)
    | _ => cases hshape
  | @assignment symbol target indices value hsymbol htarget hindices hvalue =>
    cases hw' with
    | @assignment symbol' target' indices' value' hsymbol' htarget' hindices' hvalue' =>
      simp only [text, List.append_assoc, List.cons_append, List.nil_append, List.cons.injEq,
        true_and] at heq
      have hblank (r : List Char) : ∀ c ∈ (' ' :: r).head?, Head.isPart c = false := by
        intro c hc
        cases hc
        rfl
      have hstops (fs : List Form) (r : List Char) :
          Stops (fs.flatMap indexText ++ ' ' :: r) := by
        cases fs with
        | nil => exact stops_cons (by decide) r
        | cons f fs => exact stops_cons (by decide) _
      obtain ⟨hname, hbehind⟩ := eq_of_run_append_eq (isPart_of_symbol hsymbol).1
        (isPart_of_symbol hsymbol').1 (hblank _) (hblank _) heq
      obtain rfl := String.toList_inj.mp hname
      obtain ⟨rfl, hrest⟩ := htarget.eq_of_append_eq htarget' (hstops _ _) (hstops _ _)
        (List.cons.inj hbehind).2
      obtain ⟨rfl, hlast⟩ := eq_of_indices_append_eq hindices hindices' hrest
      obtain ⟨rfl, hend⟩ := hvalue.eq_of_append_eq hvalue' (stops_cons (by decide) _)
        (stops_cons (by decide) _) hlast
      exact ⟨rfl, (List.cons.inj (List.cons.inj hend).2).2⟩
    | _ => cases hshape
  | @definition name parameters hname hparameters hdefaults =>
    cases hw' with
    | @definition name' parameters' hname' hparameters' hdefaults' =>
      simp only [text, List.append_assoc, List.cons_append, List.nil_append,
        List.append_cancel_left_eq, List.cons.injEq, true_and] at heq
      obtain ⟨rfl, hrest⟩ := hname.eq_of_append_eq hname' (stops_cons (by decide) _)
        (stops_cons (by decide) _) heq
      obtain ⟨rfl, hend⟩ := eq_of_parameters_append_eq hparameters hparameters' hdefaults
        hdefaults' (List.cons.inj hrest).2
      exact ⟨rfl, (List.cons.inj (List.cons.inj hend).2).2⟩
    | @opener keyword _ hkeyword =>
      have hdef : "def" ∈ keywords := by
        rwa [String.toList_inj.mp (Shape.keyword.inj hshape : "def".toList = keyword.toList)]
      exact absurd hdef (by decide)
    | _ => cases hshape

end Heading

end ScriptReader

import ScriptReader.Proofs.Printed.Word

/-!
# Proofs/Printed/Shown — an expression is known from its form, as far as it is shown

`Expr.shown` leaves out of an expression what its printed form does not show, and `Expr.form` is the
form that it is printed in.  An expression is legible if its names are identifiers, its numbers have
no sign, and its operators are what combines operands; legible expressions of one form are shown
alike (`Expr.IsLegible.shown_eq`).
-/

namespace ScriptReader

/-! ## What is shown -/

mutual

/-- **The expression as far as its printed form shows it.**  Nothing tells how a name is looked up,
the dictionary of named arguments is left out if it is empty, and infinity looks like a name. -/
def Expr.shown : Expr → Expr
  | .constant (.number x) => if x.isFinite then .constant (.number x) else .name "inf" .none
  | .constant c => .constant c
  | .name identifier _ => .name identifier .none
  | .array items => .array (shownEach items)
  | .dictionary entries => .dictionary (shownEntries entries)
  | .unary op operand => .unary op operand.shown
  | .binary op left right => .binary op left.shown right.shown
  | .call callee arguments => .call callee.shown (shownArguments arguments)
  | .builtIn function arguments => .builtIn function (shownArguments arguments)

def shownEach : List Expr → List Expr
  | [] => []
  | e :: es => e.shown :: shownEach es

def shownEntries : List (Expr × Expr) → List (Expr × Expr)
  | [] => []
  | (key, value) :: entries => (key.shown, value.shown) :: shownEntries entries

/-- The arguments of a call, without the dictionary of named ones if it is empty. -/
def shownArguments : List Expr → List Expr
  | [] => []
  | .dictionary [] :: es => shownEach es
  | e :: es => e.shown :: shownEach es

end

mutual

/-- The form that an expression is printed in. -/
def Expr.form : Expr → Form
  | .constant (.text s) => .quoted s
  | .constant c => .word c.printed
  | .name identifier _ => .word identifier
  | .array items => .group .array (formEach items)
  | .dictionary entries => .group .dictionary (formEntries entries)
  | .unary op operand => .group (.operator op) [operand.form]
  | .binary op left right => .group (.operator op) [left.form, right.form]
  | .call callee arguments => .group .call (callee.form :: formArguments arguments)
  | .builtIn function arguments => .group (.builtIn function) (formArguments arguments)

def formEach : List Expr → List Form
  | [] => []
  | e :: es => e.form :: formEach es

def formEntries : List (Expr × Expr) → List Form
  | [] => []
  | (key, value) :: entries => .group .entry [key.form, value.form] :: formEntries entries

def formArguments : List Expr → List Form
  | [] => []
  | .dictionary [] :: es => formEach es
  | e :: es => e.form :: formEach es

end

/-! ## Arguments -/

/-- The arguments without an empty dictionary in the first place. -/
def presentArguments : List Expr → List Expr
  | .dictionary [] :: es => es
  | es => es

theorem mem_of_mem_presentArguments {e : Expr} {es : List Expr} (h : e ∈ presentArguments es) :
    e ∈ es := by
  unfold presentArguments at h
  split at h
  · exact List.mem_cons_of_mem _ h
  · exact h

theorem shownEach_eq_map (es : List Expr) : shownEach es = es.map Expr.shown := by
  induction es with
  | nil => rw [shownEach]; rfl
  | cons e es ih => rw [shownEach, ih]; rfl

theorem formEach_eq_map (es : List Expr) : formEach es = es.map Expr.form := by
  induction es with
  | nil => rw [formEach]; rfl
  | cons e es ih => rw [formEach, ih]; rfl

theorem shownArguments_eq_map (es : List Expr) :
    shownArguments es = (presentArguments es).map Expr.shown := by
  fun_cases presentArguments es with
  | case1 es => rw [shownArguments, shownEach_eq_map]
  | case2 es hne =>
    cases es with
    | nil => rw [shownArguments]; rfl
    | cons e es =>
      rw [shownArguments, shownEach_eq_map]
      · rfl
      · exact fun he => hne es (by rw [he])

theorem formArguments_eq_map (es : List Expr) :
    formArguments es = (presentArguments es).map Expr.form := by
  fun_cases presentArguments es with
  | case1 es => rw [formArguments, formEach_eq_map]
  | case2 es hne =>
    cases es with
    | nil => rw [formArguments]; rfl
    | cons e es =>
      rw [formArguments, formEach_eq_map]
      · rfl
      · exact fun he => hne es (by rw [he])

theorem printedArguments_eq (es : List Expr) :
    printedArguments es = printedEach (presentArguments es) := by
  fun_cases presentArguments es with
  | case1 es => rw [printedArguments]
  | case2 es hne =>
    cases es with
    | nil => rw [printedArguments, printedEach]
    | cons e es =>
      rw [printedArguments, printedEach]
      exact fun he => hne es (by rw [he])

theorem shownEntries_eq_map (entries : List (Expr × Expr)) :
    shownEntries entries = entries.map fun entry => (entry.1.shown, entry.2.shown) := by
  induction entries with
  | nil => rw [shownEntries]; rfl
  | cons entry entries ih =>
    obtain ⟨key, value⟩ := entry
    rw [shownEntries, ih]
    rfl

theorem formEntries_eq_map (entries : List (Expr × Expr)) :
    formEntries entries
      = entries.map fun entry => .group .entry [entry.1.form, entry.2.form] := by
  induction entries with
  | nil => rw [formEntries]; rfl
  | cons entry entries ih =>
    obtain ⟨key, value⟩ := entry
    rw [formEntries, ih]
    rfl

/-! ## Legible expressions -/

namespace Expr

/-- The names of the expression are identifiers, its numbers have no sign, and its operators are
those that have operands. -/
inductive IsLegible : Expr → Prop
  | nothing : IsLegible (.constant .none)
  | boolean (b : Bool) : IsLegible (.constant (.boolean b))
  | text (s : String) : IsLegible (.constant (.text s))
  | number {x : Binary64} (hx : x.IsUnsigned) : IsLegible (.constant (.number x))
  | name {identifier : String} {lookup : Lookup} (h : IsIdentifier identifier) :
      IsLegible (.name identifier lookup)
  | array {items : List Expr} (hitems : ∀ e ∈ items, IsLegible e) : IsLegible (.array items)
  | dictionary {entries : List (Expr × Expr)} (hkeys : ∀ entry ∈ entries, IsLegible entry.1)
      (hvalues : ∀ entry ∈ entries, IsLegible entry.2) : IsLegible (.dictionary entries)
  | unary {op : Operator} {operand : Expr} (hop : Head.operator op ∈ Head.all)
      (h : IsLegible operand) : IsLegible (.unary op operand)
  | binary {op : Operator} {left right : Expr} (hop : Head.operator op ∈ Head.all)
      (hleft : IsLegible left) (hright : IsLegible right) : IsLegible (.binary op left right)
  | call {callee : Expr} {arguments : List Expr} (hcallee : IsLegible callee)
      (harguments : ∀ e ∈ arguments, IsLegible e) : IsLegible (.call callee arguments)
  | builtIn {function : BuiltIn} {arguments : List Expr}
      (harguments : ∀ e ∈ arguments, IsLegible e) : IsLegible (.builtIn function arguments)

namespace IsLegible

variable {e e' : Expr}

/-- What is printed as a word is shown as the word reads. -/
theorem shown_of_word (h : e.IsLegible) {s : String} (hs : e.form = .word s) :
    e.shown = ofWord s := by
  cases h with
  | nothing =>
    cases hs
    rfl
  | boolean b =>
    cases hs
    cases b <;> rfl
  | number hx =>
    cases hs
    rw [Constant.printed, ofWord_plainText hx, shown]
  | name hname =>
    cases hs
    rw [ofWord_identifier hname, shown]
  | text | array | dictionary | unary | binary | call | builtIn => simp [form] at hs

/-- **Legible expressions of one form are shown alike.** -/
theorem shown_eq (h : e.IsLegible) (h' : e'.IsLegible) (heq : e.form = e'.form) :
    e.shown = e'.shown := by
  have arguments_eq {es es' : List Expr}
      (ih : ∀ e ∈ es, ∀ {e' : Expr}, e'.IsLegible → e.form = e'.form → e.shown = e'.shown)
      (hes' : ∀ e ∈ es', e.IsLegible) (heq : formArguments es = formArguments es') :
      shownArguments es = shownArguments es' := by
    rw [formArguments_eq_map, formArguments_eq_map] at heq
    rw [shownArguments_eq_map, shownArguments_eq_map]
    exact map_eq_of_map_eq (fun a ha a' ha' => ih a (mem_of_mem_presentArguments ha)
      (hes' a' (mem_of_mem_presentArguments ha'))) heq
  induction h generalizing e' with
  | nothing => exact (shown_of_word .nothing rfl).trans (h'.shown_of_word heq.symm).symm
  | boolean b => exact (shown_of_word (.boolean b) rfl).trans (h'.shown_of_word heq.symm).symm
  | number hx => exact (shown_of_word (.number hx) rfl).trans (h'.shown_of_word heq.symm).symm
  | name hname => exact (shown_of_word (.name hname) rfl).trans (h'.shown_of_word heq.symm).symm
  | text s =>
    cases h' with
    | text s' =>
      cases heq
      rfl
    | _ => simp [form] at heq
  | array hitems ih =>
    cases h' with
    | array hitems' =>
      simp only [form, Form.group.injEq, true_and, formEach_eq_map] at heq
      rw [shown, shown, shownEach_eq_map, shownEach_eq_map]
      exact congrArg _ (map_eq_of_map_eq (fun a ha a' ha' => ih a ha (hitems' a' ha')) heq)
    | _ => simp [form] at heq
  | dictionary hkeys hvalues ihkeys ihvalues =>
    cases h' with
    | dictionary hkeys' hvalues' =>
      simp only [form, Form.group.injEq, true_and, formEntries_eq_map] at heq
      rw [shown, shown, shownEntries_eq_map, shownEntries_eq_map]
      refine congrArg _ (map_eq_of_map_eq (fun a ha a' ha' hentry => ?_) heq)
      simp only [Form.group.injEq, List.cons.injEq, true_and, and_true] at hentry
      exact Prod.ext (ihkeys a ha (hkeys' a' ha') hentry.1)
        (ihvalues a ha (hvalues' a' ha') hentry.2)
    | _ => simp [form] at heq
  | unary _ _ ih =>
    cases h' with
    | unary _ h' =>
      simp only [form, Form.group.injEq, Head.operator.injEq, List.cons.injEq, and_true] at heq
      rw [shown, shown, heq.1, ih h' heq.2]
    | _ => simp [form] at heq
  | binary _ _ _ ihleft ihright =>
    cases h' with
    | binary _ hleft' hright' =>
      simp only [form, Form.group.injEq, Head.operator.injEq, List.cons.injEq, and_true] at heq
      rw [shown, shown, heq.1, ihleft hleft' heq.2.1, ihright hright' heq.2.2]
    | _ => simp [form] at heq
  | call _ _ ihcallee iharguments =>
    cases h' with
    | call hcallee' harguments' =>
      simp only [form, Form.group.injEq, List.cons.injEq, true_and] at heq
      rw [shown, shown, ihcallee hcallee' heq.1, arguments_eq iharguments harguments' heq.2]
    | _ => simp [form] at heq
  | builtIn _ ih =>
    cases h' with
    | builtIn harguments' =>
      simp only [form, Form.group.injEq, Head.builtIn.injEq] at heq
      rw [shown, shown, heq.1, arguments_eq ih harguments' heq.2]
    | _ => simp [form] at heq

/-! ## Printed expressions -/

theorem isWritten_form (h : e.IsLegible) : e.form.IsWritten := by
  have arguments_isWritten {es : List Expr} (ih : ∀ e ∈ es, e.form.IsWritten) :
      ∀ f ∈ formArguments es, f.IsWritten := by
    rw [formArguments_eq_map]
    exact List.forall_mem_map.mpr fun e he => ih e (mem_of_mem_presentArguments he)
  induction h with
  | nothing => exact Form.isWritten_word (by decide)
  | boolean b => cases b <;> exact Form.isWritten_word (by decide)
  | text s => exact .quoted s
  | number hx => exact isWritten_plainText hx
  | name hname => exact isWritten_identifier hname
  | array _ ih =>
    rw [form, formEach_eq_map]
    exact .group (by decide) (List.forall_mem_map.mpr ih)
  | dictionary _ _ ihkeys ihvalues =>
    rw [form, formEntries_eq_map]
    refine .group (by decide) (List.forall_mem_map.mpr fun entry hentry => ?_)
    exact .group (by decide) (List.forall_mem_cons.mpr
      ⟨ihkeys entry hentry, List.forall_mem_singleton.mpr (ihvalues entry hentry)⟩)
  | unary hop _ ih => exact .group hop (List.forall_mem_singleton.mpr ih)
  | binary hop _ _ ihleft ihright =>
    exact .group hop (List.forall_mem_cons.mpr ⟨ihleft, List.forall_mem_singleton.mpr ihright⟩)
  | call _ _ ihcallee iharguments =>
    exact .group (by decide) (List.forall_mem_cons.mpr ⟨ihcallee, arguments_isWritten iharguments⟩)
  | @builtIn function _ _ ih =>
    exact .group (by cases function <;> decide) (arguments_isWritten ih)

end IsLegible

end Expr

/-! ## Printed texts -/

theorem toList_blank : " ".toList = [' '] := rfl

theorem toList_opener : "(".toList = ['('] := rfl

theorem toList_closer : ")".toList = [')'] := rfl

/-- A group is printed as its head and its parts in parentheses. -/
theorem toList_group (head : Head) {parts : List Form} {body : String}
    (h : body.toList = Form.textEach parts) :
    ("(" ++ head.text ++ body ++ ")").toList = (Form.group head parts).text := by
  simp only [String.toList_append, toList_opener, toList_closer, h, Form.text, List.append_assoc,
    List.cons_append, List.nil_append]

theorem toList_printedEach {es : List Expr} (h : ∀ e ∈ es, e.printed.toList = e.form.text) :
    (printedEach es).toList = Form.textEach (es.map Expr.form) := by
  induction es with
  | nil => rw [printedEach]; rfl
  | cons e es ih =>
    obtain ⟨he, hes⟩ := List.forall_mem_cons.mp h
    rw [printedEach, String.toList_append, String.toList_append, toList_blank, he, ih hes,
      List.map_cons, Form.textEach]
    rfl

theorem toList_printedEntries {entries : List (Expr × Expr)}
    (hkeys : ∀ entry ∈ entries, entry.1.printed.toList = entry.1.form.text)
    (hvalues : ∀ entry ∈ entries, entry.2.printed.toList = entry.2.form.text) :
    (printedEntries entries).toList = Form.textEach (formEntries entries) := by
  induction entries with
  | nil => rw [printedEntries, formEntries]; rfl
  | cons entry entries ih =>
    obtain ⟨key, value⟩ := entry
    obtain ⟨hkey, hkeys⟩ := List.forall_mem_cons.mp hkeys
    obtain ⟨hvalue, hvalues⟩ := List.forall_mem_cons.mp hvalues
    have hopener : " (: ".toList = [' ', '(', ':', ' '] := rfl
    have hhead : Head.entry.text.toList = [':'] := rfl
    rw [printedEntries, formEntries]
    simp only [String.toList_append, hopener, toList_blank, toList_closer, hkey, hvalue,
      ih hkeys hvalues, Form.textEach, Form.text, hhead, List.append_assoc, List.cons_append,
      List.nil_append]

/-- **A legible expression is printed as the text of its form.** -/
theorem Expr.IsLegible.toList_printed {e : Expr} (h : e.IsLegible) :
    e.printed.toList = e.form.text := by
  have arguments {es : List Expr} (ih : ∀ e ∈ es, e.printed.toList = e.form.text) :
      (printedArguments es).toList = Form.textEach (formArguments es) := by
    rw [printedArguments_eq, formArguments_eq_map]
    exact toList_printedEach fun e he => ih e (mem_of_mem_presentArguments he)
  induction h with
  | nothing | boolean | text | number | name =>
    rw [printed]
    rfl
  | array _ ih =>
    rw [printed, form, formEach_eq_map]
    exact toList_group .array (toList_printedEach ih)
  | dictionary _ _ ihkeys ihvalues =>
    rw [printed, form]
    exact toList_group .dictionary (toList_printedEntries ihkeys ihvalues)
  | unary _ _ ih =>
    rw [printed, form]
    simp only [String.toList_append, toList_opener, toList_closer, toList_blank, ih, Form.text,
      Form.textEach, Head.text, List.append_assoc, List.cons_append, List.nil_append]
  | binary _ _ _ ihleft ihright =>
    rw [printed, form]
    simp only [String.toList_append, toList_opener, toList_closer, toList_blank, ihleft, ihright,
      Form.text, Form.textEach, Head.text, List.append_assoc, List.cons_append, List.nil_append]
  | call _ _ ihcallee iharguments =>
    have hopener : "(call ".toList = '(' :: (Head.call.text.toList ++ [' ']) := rfl
    rw [printed, form]
    simp only [String.toList_append, hopener, toList_closer, ihcallee, arguments iharguments,
      Form.text, Form.textEach, List.append_assoc, List.cons_append, List.nil_append]
  | @builtIn function _ _ ih =>
    rw [printed, form]
    exact toList_group (.builtIn function) (arguments ih)

end ScriptReader

import ScriptReader.Document
import ScriptReader.Proofs.Number.ReadBack
import ScriptReader.Proofs.Text.Codes

/-!
# Proofs/Document/Compact — a document on one line is told from every other

The first character of a document says what it is (`Document.shape_of_head`), a string ends at the
first quote that is not escaped, and a number before a comma or a closing bracket.  So a document is
known from its text, and so is where it ends (`Document.eq_of_compact_append_eq`), provided that its
numbers are written as numbers (`Document.IsWritten`).
-/

namespace ScriptReader.Document

/-! ## Strings -/

/-- Takes a written character off a text. -/
def takeChar : List Char → Option (Char × List Char)
  | '\\' :: 'u' :: '0' :: '0' :: h :: l :: r =>
    some (Char.ofNat (16 * (Text.hexValue? h).getD 0 + (Text.hexValue? l).getD 0), r)
  | '\\' :: 'b' :: r => some ('\x08', r)
  | '\\' :: 'f' :: r => some ('\x0c', r)
  | '\\' :: 'n' :: r => some ('\n', r)
  | '\\' :: 'r' :: r => some ('\r', r)
  | '\\' :: 't' :: r => some ('\t', r)
  | '\\' :: c :: r => some (c, r)
  | c :: r => some (c, r)
  | [] => none

/-- **A written character is taken off as it was.** -/
theorem takeChar_writtenChar (c : Char) (r : List Char) :
    takeChar (writtenChar c ++ r) = some (c, r) := by
  unfold writtenChar
  split
  · next h => rw [h]; rfl
  split
  · next h => rw [h]; rfl
  split
  · next h => rw [h]; rfl
  split
  · next h => rw [h]; rfl
  split
  · next h => rw [h]; rfl
  split
  · next h => rw [h]; rfl
  split
  · next h => rw [h]; rfl
  split
  · next hlow =>
    have hvalue : Char.ofNat (16 * (c.toNat / 16) + c.toNat % 16) = c := by
      rw [Nat.div_add_mod, Char.ofNat_toNat]
    have hhigh := Text.hexValue?_digitChar (c.toNat / 16) (by omega)
    have hlast := Text.hexValue?_digitChar (c.toNat % 16) (by omega)
    simp only [List.cons_append, List.nil_append, takeChar, hhigh, hlast, Option.getD_some, hvalue]
  · -- What is not escaped is no backslash.
    rw [List.singleton_append, takeChar.eq_def]
    split <;> simp_all

theorem head?_writtenChar_ne_quote (c : Char) (r : List Char) :
    (writtenChar c ++ r).head? ≠ some '"' := by
  unfold writtenChar
  split
  · exact fun h => nomatch h
  · next hc =>
    repeat' split
    all_goals intro h; cases h
    exact hc rfl

/-- **A string between quotes is known from its text**, and so is where it ends. -/
theorem eq_of_writtenString_append_eq {s s' : String} {r r' : List Char}
    (h : (writtenString s).toList ++ r = (writtenString s').toList ++ r') : s = s' ∧ r = r' := by
  simp only [writtenString, String.toList_ofList, List.append_assoc, List.cons_append,
    List.nil_append, List.cons.injEq, true_and] at h
  obtain ⟨hs, hr⟩ := eq_of_flatMap_append_eq (fun _ => True) (·.head? = some '"')
    (fun c _ c' _ _ _ _ _ => eq_of_reads takeChar_writtenChar) (fun _ _ => trivial)
    (fun _ _ => trivial) (fun c _ => head?_writtenChar_ne_quote c) rfl rfl h
  exact ⟨String.toList_inj.mp hs, (List.cons.inj hr).2⟩

/-! ## Shapes -/

/-- What a document is. -/
inductive Shape where
  | null
  | text
  | number
  | list
  | record

/-- What a document is that begins with a character. -/
def Shape.ofHead? (c : Char) : Option Shape :=
  if c = 'n' then some null
  else if c = '"' then some text
  else if c.isDigit || c == '-' then some number
  else if c = '[' then some list
  else if c = '\x7b' then some record
  else none

def shape : Document → Shape
  | null => .null
  | text _ => .text
  | number _ => .number
  | list _ => .list
  | record _ => .record

/-- The numbers of a document are written as numbers. -/
inductive IsWritten : Document → Prop
  | null : IsWritten null
  | text (s : String) : IsWritten (text s)
  | number {digits : String} {c : Char} {rest : List Char} (htext : digits.toList = c :: rest)
      (hhead : c.isDigit || c == '-') (hrest : ∀ d ∈ rest, isNumeralPart d) :
      IsWritten (number digits)
  | list {items : List Document} (hitems : ∀ d ∈ items, IsWritten d) : IsWritten (list items)
  | record {fields : List (String × Document)} (hfields : ∀ f ∈ fields, IsWritten f.2) :
      IsWritten (record fields)

/-! ## Rows -/

/-- The text ends, or goes on as a row does behind a part. -/
def Ends (rest : List Char) : Prop := ∀ c ∈ rest.head?, c = ',' ∨ c = ']' ∨ c = '\x7d'

theorem ends_nil : Ends [] := fun _ hc => by cases hc

/-- **What stands between brackets is known from its text** if its parts are, and so is where it
ends. -/
theorem eq_of_bracketed_append_eq {α : Type} {part : α → List Char} {closer : Char}
    (hcloser : closer = ']' ∨ closer = '\x7d') {as as' : List α} {r r' : List Char}
    (hpart : ∀ a ∈ as, ∀ a' ∈ as', ∀ r r', Ends r → Ends r' →
      part a ++ r = part a' ++ r' → a = a' ∧ r = r')
    (hhead : ∀ a, a ∈ as ∨ a ∈ as' → ∀ r, (part a ++ r).head? ≠ some closer)
    (h : row [','] part as ++ closer :: r = row [','] part as' ++ closer :: r') :
    as = as' ∧ r = r' := by
  have hcomma (r : List Char) : Ends ([','] ++ r) ∧ ([','] ++ r).head? ≠ some closer := by
    refine ⟨fun c hc => ?_, ?_⟩
    · cases hc
      exact .inl rfl
    · rcases hcloser with rfl | rfl <;> exact fun h => nomatch h
  have hends (r : List Char) (hr : r.head? = some closer) : Ends r := by
    intro c hc
    rw [hr] at hc
    cases hc
    exact .inr hcloser
  obtain ⟨rfl, hend⟩ := eq_of_row_append_eq Ends (·.head? = some closer) hpart hcomma hends hhead
    rfl rfl h
  exact ⟨rfl, (List.cons.inj hend).2⟩

/-! ## Documents -/

/-- A field with its key. -/
def fieldText (f : String × Document) : List Char :=
  (writtenString f.1).toList ++ ':' :: f.2.compact.toList

theorem toList_comma : ",".toList = [','] := rfl

theorem toList_colon : ":".toList = [':'] := rfl

theorem toList_compactItems (ds : List Document) :
    (compactItems ds).toList = ds.flatMap fun d => ',' :: d.compact.toList := by
  induction ds with
  | nil => rfl
  | cons d ds ih =>
    simp only [compactItems, String.toList_append, toList_comma, ih, List.flatMap_cons,
      List.cons_append, List.nil_append]

theorem toList_compactFields (fields : List (String × Document)) :
    (compactFields fields).toList = fields.flatMap fun f => ',' :: fieldText f := by
  induction fields with
  | nil => rfl
  | cons f fields ih =>
    obtain ⟨key, d⟩ := f
    simp only [compactFields, String.toList_append, toList_comma, toList_colon, ih,
      List.flatMap_cons, fieldText, List.append_assoc, List.cons_append, List.nil_append]

theorem toList_compact_list (items : List Document) :
    (list items).compact.toList
      = '[' :: (row [','] (fun d => d.compact.toList) items ++ [']']) := by
  have hopener : "[".toList = ['['] := rfl
  have hcloser : "]".toList = [']'] := rfl
  cases items with
  | nil => rw [compact]; rfl
  | cons d ds =>
    rw [compact]
    simp only [String.toList_append, hopener, hcloser, toList_compactItems, row, List.append_assoc,
      List.cons_append, List.nil_append]

theorem toList_compact_record (fields : List (String × Document)) :
    (record fields).compact.toList = '\x7b' :: (row [','] fieldText fields ++ ['\x7d']) := by
  have hopener : "\x7b".toList = ['\x7b'] := rfl
  have hcloser : "\x7d".toList = ['\x7d'] := rfl
  cases fields with
  | nil => rw [compact]; rfl
  | cons f fields =>
    obtain ⟨key, d⟩ := f
    rw [compact]
    simp only [String.toList_append, hopener, hcloser, toList_colon, toList_compactFields, row,
      fieldText, List.append_assoc, List.cons_append, List.nil_append]

/-- **The first character says what a document is.** -/
theorem IsWritten.shape_of_head {d : Document} (h : d.IsWritten) :
    ∃ c rest, d.compact.toList = c :: rest ∧ Shape.ofHead? c = some d.shape := by
  cases h with
  | null => exact ⟨'n', "ull".toList, by rw [compact]; rfl, rfl⟩
  | text s =>
    refine ⟨'"', s.toList.flatMap writtenChar ++ ['"'], ?_, rfl⟩
    rw [compact, writtenString, String.toList_ofList]
    rfl
  | @number digits c rest htext hhead hrest =>
    refine ⟨c, rest, by rw [compact, htext], ?_⟩
    have hn : c ≠ 'n' := by rintro rfl; revert hhead; decide
    have hquote : c ≠ '"' := by rintro rfl; revert hhead; decide
    rw [Shape.ofHead?, if_neg hn, if_neg hquote, if_pos hhead]
    rfl
  | @list items hitems => exact ⟨'[', _, toList_compact_list items, rfl⟩
  | @record fields hfields => exact ⟨'\x7b', _, toList_compact_record fields, rfl⟩

theorem IsWritten.head?_ne_closer {d : Document} (h : d.IsWritten) {closer : Char}
    (hcloser : Shape.ofHead? closer = none) (r : List Char) :
    (d.compact.toList ++ r).head? ≠ some closer := by
  obtain ⟨c, rest, htext, hshape⟩ := h.shape_of_head
  intro heq
  rw [htext] at heq
  cases heq
  cases hcloser.symm.trans hshape

theorem IsWritten.shape_eq {d d' : Document} (h : d.IsWritten) (h' : d'.IsWritten)
    {r r' : List Char} (heq : d.compact.toList ++ r = d'.compact.toList ++ r') :
    d.shape = d'.shape := by
  obtain ⟨c, rest, htext, hshape⟩ := h.shape_of_head
  obtain ⟨c', rest', htext', hshape'⟩ := h'.shape_of_head
  rw [htext, htext'] at heq
  obtain rfl := (List.cons.inj heq).1
  exact Option.some.inj (hshape.symm.trans hshape')

/-- A number is a run of characters. -/
theorem isNumeralPart_of_number {digits : String} {c : Char} {rest : List Char}
    (htext : digits.toList = c :: rest) (hhead : c.isDigit || c == '-')
    (hrest : ∀ d ∈ rest, isNumeralPart d) : ∀ d ∈ digits.toList, isNumeralPart d := by
  rw [htext]
  refine List.forall_mem_cons.mpr ⟨?_, hrest⟩
  rw [Bool.or_eq_true, beq_iff_eq] at hhead
  rcases hhead with hdigit | rfl
  · exact isNumeralPart_of_isDigit hdigit
  · rfl

theorem Ends.isNumeralPart_eq_false {r : List Char} (h : Ends r) :
    ∀ c ∈ r.head?, isNumeralPart c = false := by
  intro c hc
  rcases h c hc with rfl | rfl | rfl <;> rfl

/-- **A document is known from its text**, and so is where it ends. -/
theorem IsWritten.eq_of_append_eq {d d' : Document} (h : d.IsWritten) (h' : d'.IsWritten)
    {r r' : List Char} (hr : Ends r) (hr' : Ends r')
    (heq : d.compact.toList ++ r = d'.compact.toList ++ r') : d = d' ∧ r = r' := by
  have hshape := h.shape_eq h' heq
  induction h generalizing d' r r' with
  | null =>
    cases h' with
    | null => exact ⟨rfl, List.append_cancel_left heq⟩
    | _ => cases hshape
  | text s =>
    cases h' with
    | text s' =>
      rw [compact, compact] at heq
      obtain ⟨rfl, hrest⟩ := eq_of_writtenString_append_eq heq
      exact ⟨rfl, hrest⟩
    | _ => cases hshape
  | number htext hhead hrest =>
    cases h' with
    | number htext' hhead' hrest' =>
      rw [compact, compact] at heq
      obtain ⟨hdigits, hend⟩ := eq_of_run_append_eq (isNumeralPart_of_number htext hhead hrest)
        (isNumeralPart_of_number htext' hhead' hrest') hr.isNumeralPart_eq_false
        hr'.isNumeralPart_eq_false heq
      exact ⟨congrArg Document.number (String.toList_inj.mp hdigits), hend⟩
    | _ => cases hshape
  | @list items hitems ih =>
    cases h' with
    | @list items' hitems' =>
      rw [toList_compact_list, toList_compact_list, List.cons_append, List.cons_append,
        List.append_assoc, List.append_assoc] at heq
      obtain ⟨rfl, hend⟩ := eq_of_bracketed_append_eq (.inl rfl)
        (fun d hd d' hd' r r' hr hr' heq =>
          ih d hd (hitems' d' hd') hr hr' heq ((hitems d hd).shape_eq (hitems' d' hd') heq))
        (fun d hd => (hd.elim (hitems d) (hitems' d)).head?_ne_closer rfl) (List.cons.inj heq).2
      exact ⟨rfl, hend⟩
    | _ => cases hshape
  | @record fields hfields ih =>
    cases h' with
    | @record fields' hfields' =>
      rw [toList_compact_record, toList_compact_record, List.cons_append, List.cons_append,
        List.append_assoc, List.append_assoc] at heq
      have hpart : ∀ f ∈ fields, ∀ f' ∈ fields', ∀ r r', Ends r → Ends r' →
          fieldText f ++ r = fieldText f' ++ r' → f = f' ∧ r = r' := by
        intro f hf f' hf' r r' hr hr' heq
        obtain ⟨key, d⟩ := f
        obtain ⟨key', d'⟩ := f'
        rw [fieldText, fieldText, List.append_assoc, List.append_assoc] at heq
        obtain ⟨rfl, heq⟩ := eq_of_writtenString_append_eq heq
        have heq := (List.cons.inj heq).2
        obtain ⟨rfl, hend⟩ := ih _ hf (hfields' _ hf') hr hr' heq
          ((hfields _ hf).shape_eq (hfields' _ hf') heq)
        exact ⟨rfl, hend⟩
      have hhead (f : String × Document) (r : List Char) :
          (fieldText f ++ r).head? ≠ some '\x7d' := by
        rw [fieldText, writtenString, String.toList_ofList]
        exact fun h => nomatch h
      obtain ⟨rfl, hend⟩ := eq_of_bracketed_append_eq (.inr rfl) hpart (fun f _ => hhead f)
        (List.cons.inj heq).2
      exact ⟨rfl, hend⟩
    | _ => cases hshape

/-- **Documents with one text are the same.** -/
theorem IsWritten.eq_of_compact_eq {d d' : Document} (h : d.IsWritten) (h' : d'.IsWritten)
    (heq : d.compact = d'.compact) : d = d' :=
  (h.eq_of_append_eq h' ends_nil ends_nil (congrArg (fun s => s.toList ++ []) heq)).1

end ScriptReader.Document

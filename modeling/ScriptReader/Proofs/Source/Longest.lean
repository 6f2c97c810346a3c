import ScriptReader.Proofs.Source.Scanned
import ScriptReader.Proofs.Source.Stretch

/-!
# Proofs/Source/Longest — every token is the longest lexeme of its kind

`IsLongest` says what a lexeme of each kind looks like and that the text behind it does not go on
with it, in terms of characters alone: words and numerals are maximal runs, a string goes up to the
first quotes that no backslash takes along, and an operator has two characters where two make one.
Whatever is read as a lexeme is one (`isLongest_of_piece?`), so that a scan reads its tokens off the
text as longest lexemes (`Source.exists_longest`).
-/

namespace ScriptReader

open ScriptReader.Stretch ScriptReader.Text

/-! ## Quotes -/

/-- What a string literal stands between. -/
inductive Quotes where
  | apostrophe
  | double
  | longApostrophe
  | longDouble
  deriving DecidableEq, Repr

namespace Quotes

/-- The character that they are made of. -/
def mark : Quotes → Char
  | apostrophe => '\''
  | double => '"'
  | longApostrophe => '\''
  | longDouble => '"'

/-- The quotes at either end. -/
def marks : Quotes → List Char
  | apostrophe => ['\'']
  | double => ['"']
  | longApostrophe => ['\'', '\'', '\'']
  | longDouble => ['"', '"', '"']

/-- The kind of literal between them. -/
def kind : Quotes → Kind
  | apostrophe => .apostropheString
  | double => .quotedString
  | longApostrophe => .longString
  | longDouble => .longString

/-- **What may stand between quotes**: a backslash goes with the character behind it, and elsewhere
the closing quotes do not begin, nor does a string between single quotes leave its line. -/
inductive IsBody (q : Quotes) : List Char → Prop
  | nil : IsBody q []
  | escape (c : Char) {cs : List Char} (h : IsBody q cs) : IsBody q ('\\' :: c :: cs)
  | plain {c : Char} {cs : List Char} (hslash : c ≠ '\\')
      (hmarks : ¬q.marks <+: c :: (cs ++ q.marks)) (hline : c = '\n' → q.kind = .longString)
      (h : IsBody q cs) : IsBody q (c :: cs)

end Quotes

/-! ## Longest lexemes -/

/-- **The numeral is as long as it can be** before a rest: it takes all digits, and a point with
digits behind it.  A zero before an `x` is hexadecimal. -/
inductive IsLongestNumeral (rest : List Char) : List Char → Prop
  | hexadecimal {x : Char} {ds : List Char} (hx : x = 'x' ∨ x = 'X')
      (hds : ∀ d ∈ ds, isHexDigit d = true) (hrest : ∀ c ∈ rest.head?, isHexDigit c = false) :
      IsLongestNumeral rest ('0' :: x :: ds)
  | whole {ds : List Char} (hne : ds ≠ []) (hds : ∀ d ∈ ds, isDigit d = true)
      (hrest : ∀ c ∈ rest.head?, isDigit c = false)
      (hpoint : ∀ d tail, rest = '.' :: d :: tail → isDigit d = false)
      (hhex : ds = ['0'] → ∀ c ∈ rest.head?, c ≠ 'x' ∧ c ≠ 'X') : IsLongestNumeral rest ds
  | fraction {ds es : List Char} (hne : ds ≠ []) (hds : ∀ d ∈ ds, isDigit d = true)
      (hne' : es ≠ []) (hes : ∀ d ∈ es, isDigit d = true)
      (hrest : ∀ c ∈ rest.head?, isDigit c = false) : IsLongestNumeral rest (ds ++ '.' :: es)

/-- **The reserved words**: those that statements begin with or end in, those of jumps and printing,
the operators that are words, and the constants. -/
theorem mem_reservedWords_iff {word : String} :
    word ∈ reservedWords ↔ word ∈ ["if", "elif", "else", "while", "for", "def", "end"]
      ∨ word ∈ ["break", "continue", "return", "print"] ∨ word ∈ ["not", "and", "or", "in"]
      ∨ word ∈ ["None", "True", "False"] := by
  have hperm : reservedWords.Perm (["if", "elif", "else", "while", "for", "def", "end"]
      ++ (["break", "continue", "return", "print"] ++ (["not", "and", "or", "in"]
        ++ ["None", "True", "False"]))) := by decide
  rw [hperm.mem_iff, List.mem_append, List.mem_append, List.mem_append]

/-- **The operators of two characters.** -/
theorem mem_doubleOperators_iff {c d : Char} :
    (c, d) ∈ doubleOperators ↔ String.ofList [c, d]
      ∈ ["==", "!=", "<=", ">=", "+=", "-=", "*=", "/=", "%=", ":="] := by
  simp [doubleOperators, ← String.toList_inj]

/-- **The operators of one character.** -/
theorem mem_singleOperators_iff {c : Char} :
    c ∈ singleOperators ↔ String.ofList [c] ∈ ["(", "[", "\x7b", ")", "]", "\x7d", "+", "-", "*",
      "/", "%", "=", "<", ">", ".", ",", ":"] := by
  simp [singleOperators, ← String.toList_inj]

/-- **The text is the longest lexeme of its kind** before a rest. -/
inductive IsLongest (rest : List Char) : Kind → List Char → Prop
  | keyword {cs : List Char} (h : String.ofList cs ∈ reservedWords)
      (hrest : ∀ c ∈ rest.head?, isWordPart c = false) : IsLongest rest .keyword cs
  | identifier {c : Char} {cs : List Char} (hc : isWordStart c = true)
      (hcs : ∀ d ∈ cs, isWordPart d = true) (h : String.ofList (c :: cs) ∉ reservedWords)
      (hrest : ∀ c ∈ rest.head?, isWordPart c = false) : IsLongest rest .identifier (c :: cs)
  | number {cs : List Char} (h : IsLongestNumeral rest cs) : IsLongest rest .number cs
  /-- The quotes are tripled wherever three of them stand. -/
  | string (q : Quotes) {kind : Kind} {body : List Char} (hkind : q.kind = kind)
      (hbody : q.IsBody body)
      (hlong : kind ≠ .longString → ¬[q.mark, q.mark] <+: body ++ q.marks ++ rest) :
      IsLongest rest kind (q.marks ++ body ++ q.marks)
  | double {c d : Char} (h : (c, d) ∈ doubleOperators) : IsLongest rest .operator [c, d]
  | single {c : Char} (h : c ∈ singleOperators)
      (hrest : ∀ d ∈ rest.head?, (c, d) ∉ doubleOperators) : IsLongest rest .operator [c]

/-! ## Words -/

/-- What a run leaves does not go on with it. -/
theorem head?_dropWhile_eq_false {p : Char → Bool} {cs : List Char} :
    ∀ c ∈ (cs.dropWhile p).head?, p c = false := by
  intro c hc
  have hstop := List.head?_dropWhile_not p cs
  rw [Option.mem_def.mp hc] at hstop
  simpa using hstop

theorem isLongest_of_word {c : Char} {kind : Kind} {text cs rest : List Char}
    (hc : isWordStart c = true) (h : word (c :: cs) = (.lexeme kind text, rest)) :
    IsLongest rest kind text := by
  simp only [word, List.takeWhile_cons_of_pos (isWordPart_of_isWordStart hc), Prod.mk.injEq,
    Piece.lexeme.injEq] at h
  obtain ⟨⟨rfl, rfl⟩, rfl⟩ := h
  split
  · next hreserved =>
    exact .keyword (List.contains_iff_mem.mp hreserved) head?_dropWhile_eq_false
  · next hreserved =>
    refine .identifier hc (fun _ => List.mem_takeWhile_imp) (fun hmem => hreserved ?_)
      head?_dropWhile_eq_false
    exact List.contains_iff_mem.mpr hmem

/-! ## Numerals -/

/-- A zero that is no hexadecimal prefix has no `x` behind it. -/
theorem ne_x_of_append {cs ds rest : List Char} (hx : ∀ tail, cs ≠ '0' :: 'x' :: tail)
    (hX : ∀ tail, cs ≠ '0' :: 'X' :: tail) (hsplit : ds ++ rest = cs) (hzero : ds = ['0']) :
    ∀ d ∈ rest.head?, d ≠ 'x' ∧ d ≠ 'X' := by
  intro d hd
  obtain ⟨tail, rfl⟩ := List.head?_eq_some_iff.mp hd
  subst hzero hsplit
  refine ⟨?_, ?_⟩
  · rintro rfl
    exact hx tail rfl
  · rintro rfl
    exact hX tail rfl

theorem isLongestNumeral_of_decimal {c : Char} {kind : Kind} {text cs rest : List Char}
    (hc : isDigit c = true) (hx : ∀ tail, c :: cs ≠ '0' :: 'x' :: tail)
    (hX : ∀ tail, c :: cs ≠ '0' :: 'X' :: tail)
    (h : decimal (c :: cs) = (.lexeme kind text, rest)) : IsLongestNumeral rest text := by
  have hsplit := List.takeWhile_append_dropWhile (p := isDigit) (l := c :: cs)
  have hall : ∀ d ∈ (c :: cs).takeWhile isDigit, isDigit d = true := fun _ => List.mem_takeWhile_imp
  have hstop : ∀ d ∈ ((c :: cs).dropWhile isDigit).head?, isDigit d = false :=
    head?_dropWhile_eq_false
  have hne : (c :: cs).takeWhile isDigit ≠ [] := by
    rw [List.takeWhile_cons_of_pos hc]
    exact List.cons_ne_nil _ _
  generalize hds : (c :: cs).takeWhile isDigit = ds at hsplit hall hne
  unfold decimal at h
  rw [hds] at h
  split at h
  · next d tail hafter =>
    rw [hafter] at hstop hsplit
    split at h
    · next hd =>
      simp only [Prod.mk.injEq, Piece.lexeme.injEq] at h
      obtain ⟨⟨-, rfl⟩, rfl⟩ := h
      refine .fraction hne hall ?_ (fun _ => List.mem_takeWhile_imp) head?_dropWhile_eq_false
      rw [List.takeWhile_cons_of_pos hd]
      exact List.cons_ne_nil _ _
    · next hd =>
      simp only [Prod.mk.injEq, Piece.lexeme.injEq] at h
      obtain ⟨⟨-, rfl⟩, rfl⟩ := h
      refine .whole hne hall hstop (fun e tail heq => ?_) (ne_x_of_append hx hX hsplit)
      cases heq
      exact Bool.eq_false_iff.mpr hd
  · next hafter =>
    simp only [Prod.mk.injEq, Piece.lexeme.injEq] at h
    obtain ⟨⟨-, rfl⟩, rfl⟩ := h
    refine .whole hne hall hstop (fun d tail heq => ?_) (ne_x_of_append hx hX hsplit)
    exact absurd heq (hafter d tail)

theorem isLongestNumeral_of_numeral {c : Char} {kind : Kind} {text cs rest : List Char}
    (hc : isDigit c = true) (h : numeral (c :: cs) = (.lexeme kind text, rest)) :
    IsLongestNumeral rest text := by
  unfold numeral at h
  split at h
  · cases h
    exact .hexadecimal (.inl rfl) (fun _ => List.mem_takeWhile_imp) head?_dropWhile_eq_false
  · cases h
    exact .hexadecimal (.inr rfl) (fun _ => List.mem_takeWhile_imp) head?_dropWhile_eq_false
  · next hx hX => exact isLongestNumeral_of_decimal hc hx hX h

/-! ## Strings -/

namespace Quotes

variable {q : Quotes} {cs : List Char}

theorem mark_ne_backslash (q : Quotes) : q.mark ≠ '\\' := by cases q <;> decide

theorem mark_ne_newline (q : Quotes) : q.mark ≠ '\n' := by cases q <;> decide

theorem marks_of_short (h : q.kind ≠ .longString) : q.marks = [q.mark] := by
  cases q <;> first | rfl | exact absurd rfl h

theorem marks_of_long (h : q.kind = .longString) : q.marks = [q.mark, q.mark, q.mark] := by
  cases q <;> first | rfl | cases h

/-- What stands before the closing quote of a string that ends at the next one. -/
theorem exists_isBody_of_short (hq : q.kind ≠ .longString)
    (h : (StringTail.short q.mark cs).closed = true) :
    ∃ body, (StringTail.short q.mark cs).text = body ++ q.marks ∧ q.IsBody body := by
  rw [marks_of_short hq]
  fun_induction StringTail.short q.mark cs with
  | case1 => cases h
  | case2 c cs ih =>
    obtain ⟨body, htext, hbody⟩ := ih h
    exact ⟨'\\' :: c :: body, congrArg ('\\' :: c :: ·) htext, .escape c hbody⟩
  | case3 => exact ⟨[], rfl, .nil⟩
  | case4 => cases h
  | case5 c cs hne hmark hline ih =>
    obtain ⟨body, htext, hbody⟩ := ih h
    have hslash := StringTail.ne_backslash hne (by rintro rfl; cases h)
    refine ⟨c :: body, congrArg (c :: ·) htext, .plain hslash ?_ (fun hn => absurd hn hline) hbody⟩
    rw [marks_of_short hq, List.cons_prefix_cons]
    exact fun hprefix => hmark hprefix.1.symm

/-- What stands before the closing quotes of a string that ends at the next three. -/
theorem exists_isBody_of_long (hq : q.kind = .longString)
    (h : (StringTail.long q.mark cs).closed = true) :
    ∃ body, (StringTail.long q.mark cs).text = body ++ q.marks ∧ q.IsBody body := by
  rw [marks_of_long hq]
  fun_induction StringTail.long q.mark cs with
  | case1 => cases h
  | case2 c cs ih =>
    obtain ⟨body, htext, hbody⟩ := ih h
    exact ⟨'\\' :: c :: body, congrArg ('\\' :: c :: ·) htext, .escape c hbody⟩
  | case3 c cs hne hmarks =>
    refine ⟨[], ?_, .nil⟩
    rw [hmarks.1, hmarks.2]
    rfl
  | case4 c cs hne hmarks ih =>
    obtain ⟨body, htext, hbody⟩ := ih h
    have hslash := StringTail.ne_backslash hne (by rintro rfl; cases h)
    refine ⟨c :: body, congrArg (c :: ·) htext, .plain hslash ?_ (fun _ => hq) hbody⟩
    have hcs : cs = body ++ [q.mark, q.mark, q.mark] ++ (StringTail.long q.mark cs).rest := by
      rw [← htext, StringTail.text_append_long]
    rw [marks_of_long hq, List.cons_prefix_cons]
    rintro ⟨hc, hprefix⟩
    refine hmarks ⟨hc.symm, ?_⟩
    rw [hcs]
    obtain ⟨tail, htail⟩ := hprefix
    rw [← htail]
    rfl

/-- A string that ends at the next quote goes on behind a body. -/
theorem IsBody.short_prepend (hq : q.kind ≠ .longString) (h : q.IsBody cs) (rest : List Char) :
    StringTail.short q.mark (cs ++ rest) = (StringTail.short q.mark rest).prepend cs := by
  induction h with
  | nil => rfl
  | escape c h ih =>
    rw [List.cons_append, List.cons_append, StringTail.short, ih]
    rfl
  | @plain c cs hslash hmarks hline h ih =>
    rw [marks_of_short hq, List.cons_prefix_cons] at hmarks
    rw [List.cons_append, StringTail.short, if_neg fun hc => hmarks ⟨hc.symm, List.nil_prefix⟩,
      if_neg fun hn => hq (hline hn), ih]
    · rfl
    · exact fun _ _ hc _ => hslash hc

/-- A string that ends at the next quote ends behind its body. -/
theorem IsBody.short_append (hq : q.kind ≠ .longString) (h : q.IsBody cs) (rest : List Char) :
    StringTail.short q.mark (cs ++ q.marks ++ rest) = ⟨cs ++ q.marks, rest, true⟩ := by
  have hend : StringTail.short q.mark (q.mark :: rest) = ⟨[q.mark], rest, true⟩ := by
    rw [StringTail.short, if_pos rfl]
    exact fun _ _ hc _ => q.mark_ne_backslash hc
  rw [marks_of_short hq, List.append_assoc, List.singleton_append, h.short_prepend hq, hend]
  rfl

theorem IsBody.long_append (hq : q.kind = .longString) (h : q.IsBody cs) (rest : List Char) :
    StringTail.long q.mark (cs ++ q.marks ++ rest) = ⟨cs ++ q.marks, rest, true⟩ := by
  rw [marks_of_long hq]
  induction h with
  | nil =>
    rw [List.nil_append, List.cons_append, StringTail.long, if_pos ⟨rfl, rfl⟩]
    · rfl
    · exact fun _ _ hc _ => q.mark_ne_backslash hc
  | escape c h ih =>
    rw [List.cons_append, List.cons_append, List.cons_append, List.cons_append, StringTail.long, ih]
    rfl
  | @plain c cs hslash hmarks hline h ih =>
    rw [marks_of_long hq, List.cons_prefix_cons] at hmarks
    rw [List.cons_append, List.cons_append, StringTail.long, if_neg, ih]
    · rfl
    · rintro ⟨hc, htake⟩
      refine hmarks ⟨hc.symm, ?_⟩
      rw [List.take_append_of_le_length (by simp)] at htake
      exact List.prefix_iff_eq_take.mpr htake.symm
    · exact fun _ _ hc _ => hslash hc

end Quotes

theorem isTripled_iff {quote : Char} {cs : List Char} :
    isTripled quote cs = true ↔ [quote, quote] <+: cs := by
  rw [isTripled, beq_iff_eq]
  constructor
  · intro h
    rw [← h]
    exact List.take_prefix 2 cs
  · rintro ⟨tail, rfl⟩
    rfl

/-- The quotes that a string stands between. -/
theorem exists_quotes {quote : Char} (h : quote = '"' ∨ quote = '\'') (cs : List Char) :
    ∃ q : Quotes, q.mark = quote ∧ q.kind = stringKind quote cs
      ∧ (q.kind = .longString ↔ [quote, quote] <+: cs) := by
  rw [← isTripled_iff, stringKind]
  cases isTripled quote cs with
  | true =>
    rcases h with rfl | rfl
    · exact ⟨.longDouble, rfl, rfl, iff_of_true rfl rfl⟩
    · exact ⟨.longApostrophe, rfl, rfl, iff_of_true rfl rfl⟩
  | false =>
    rcases h with rfl | rfl
    · exact ⟨.double, rfl, rfl, iff_of_false (by decide) Bool.false_ne_true⟩
    · exact ⟨.apostrophe, rfl, rfl, iff_of_false (by decide) Bool.false_ne_true⟩

/-- **A string that is closed is a body between its quotes.** -/
theorem exists_isBody_of_closed {q : Quotes} {cs : List Char}
    (hlong : q.kind = .longString ↔ [q.mark, q.mark] <+: cs)
    (hclosed : (stringTail q.mark cs).closed = true) :
    ∃ body, q.mark :: (stringTail q.mark cs).text = q.marks ++ body ++ q.marks
      ∧ q.IsBody body := by
  by_cases hq : q.kind = .longString
  · obtain ⟨tail, rfl⟩ := hlong.mp hq
    have htail : stringTail q.mark ([q.mark, q.mark] ++ tail)
        = (StringTail.long q.mark tail).prepend [q.mark, q.mark] :=
      if_pos (isTripled_iff.mpr (List.prefix_append _ _))
    rw [htail] at hclosed ⊢
    obtain ⟨body, htext, hbody⟩ := Quotes.exists_isBody_of_long hq hclosed
    refine ⟨body, ?_, hbody⟩
    rw [StringTail.text_prepend, htext, Quotes.marks_of_long hq]
    rfl
  · have htripled : ¬isTripled q.mark cs = true :=
      fun htwo => hq (hlong.mpr (isTripled_iff.mp htwo))
    have htail : stringTail q.mark cs = StringTail.short q.mark cs := if_neg htripled
    rw [htail] at hclosed ⊢
    obtain ⟨body, htext, hbody⟩ := Quotes.exists_isBody_of_short hq hclosed
    refine ⟨body, ?_, hbody⟩
    rw [htext, Quotes.marks_of_short hq]
    rfl

theorem isLongest_of_string {quote : Char} {kind : Kind} {text cs rest : List Char}
    (hquote : quote = '"' ∨ quote = '\'')
    (h : string quote cs = (.lexeme kind text, rest)) : IsLongest rest kind text := by
  have hclosed := closed_of_string h
  simp only [string, hclosed, if_true, Prod.mk.injEq, Piece.lexeme.injEq] at h
  obtain ⟨⟨rfl, rfl⟩, rfl⟩ := h
  obtain ⟨q, rfl, hkind, hlong⟩ := exists_quotes hquote cs
  obtain ⟨body, hlexeme, hbody⟩ := exists_isBody_of_closed hlong hclosed
  rw [← hkind, hlexeme]
  refine .string q rfl hbody fun hshort htwo => hshort (hlong.mpr ?_)
  rw [Quotes.marks_of_short hshort] at hlexeme htwo
  have htext : (stringTail q.mark cs).text = body ++ [q.mark] := (List.cons.inj hlexeme).2
  rwa [← htext, text_append_stringTail] at htwo

/-- A quote begins a string. -/
theorem Quotes.piece?_mark (q : Quotes) (cs : List Char) :
    piece? (q.mark :: cs) = some (string q.mark cs) := by
  cases q <;> rfl

/-- **A body between quotes is read as the string that it makes**, provided that the quotes are
those that stand there. -/
theorem piece?_string {q : Quotes} {body rest : List Char} (hbody : q.IsBody body)
    (hlong : q.kind ≠ .longString → ¬[q.mark, q.mark] <+: body ++ q.marks ++ rest) :
    piece? (q.marks ++ body ++ q.marks ++ rest)
      = some (.lexeme q.kind (q.marks ++ body ++ q.marks), rest) := by
  by_cases hq : q.kind = .longString
  · have htripled (ds : List Char) : isTripled q.mark (q.mark :: q.mark :: ds) = true :=
      isTripled_iff.mpr (List.prefix_append [q.mark, q.mark] ds)
    have htail := hbody.long_append hq rest
    rw [Quotes.marks_of_long hq] at htail ⊢
    simp only [List.cons_append, List.nil_append] at htail ⊢
    rw [Quotes.piece?_mark, string, stringTail, stringKind, htripled, hq]
    simp only [if_true, List.drop_succ_cons, List.drop_zero, htail, List.take_succ_cons,
      List.take_zero, StringTail.prepend, List.cons_append, List.nil_append]
  · have htripled : isTripled q.mark (body ++ q.marks ++ rest) = false :=
      Bool.eq_false_iff.mpr fun htwo => hlong hq (isTripled_iff.mp htwo)
    have htail := hbody.short_append hq rest
    have hkind : (if q.mark = '"' then Kind.quotedString else .apostropheString) = q.kind := by
      cases q <;> first | rfl | exact absurd rfl hq
    rw [Quotes.marks_of_short hq] at htail htripled ⊢
    rw [List.append_assoc [q.mark], List.append_assoc [q.mark], List.singleton_append,
      List.singleton_append, Quotes.piece?_mark, string, stringTail, stringKind, htripled]
    simp only [Bool.false_eq_true, if_false, htail, if_true, hkind]

/-! ## Operators -/

theorem isLongest_of_operator? {c : Char} {kind : Kind} {text cs rest : List Char}
    (h : operator? c cs = some (.lexeme kind text, rest)) : IsLongest rest kind text := by
  unfold operator? at h
  split at h
  · split at h
    · next hdouble =>
      cases h
      exact .double hdouble
    · next hdouble =>
      split at h
      · next hsingle =>
        cases h
        refine .single hsingle fun d hd => ?_
        cases hd
        exact hdouble
      · cases h
  · split at h
    · next hsingle =>
      cases h
      exact .single hsingle nofun
    · cases h

/-! ## Lexemes -/

theorem continuation_ne_lexeme (cs : List Char) {kind : Kind} {text rest : List Char} :
    continuation cs ≠ (.lexeme kind text, rest) := by
  fun_cases continuation cs <;> simp

/-- **What is read as a lexeme is the longest of its kind.** -/
theorem isLongest_of_piece? {kind : Kind} {text cs rest : List Char}
    (h : piece? cs = some (.lexeme kind text, rest)) : IsLongest rest kind text := by
  cases cs with
  | nil => cases h
  | cons c cs =>
    rw [piece?, pieceAt?] at h
    repeat' split at h
    · cases h
    · cases h
    · cases h
    · exact absurd (Option.some.inj h) (continuation_ne_lexeme cs)
    · next hquote => exact isLongest_of_string hquote (Option.some.inj h)
    · next hdigit =>
      obtain rfl := kind_numeral (Option.some.inj h)
      exact .number (isLongestNumeral_of_numeral hdigit (Option.some.inj h))
    · next hstart => exact isLongest_of_word hstart (Option.some.inj h)
    · exact isLongest_of_operator? h

/-! ## Scans -/

/-- **Every token among the stretches is a longest lexeme**, where `rest` is the text behind
them. -/
def Stretch.Longest (ss : List Stretch) (rest : List Char) : Prop :=
  ∀ as t bs, ss = as ++ .token t :: bs → IsLongest (textOf bs ++ rest) t.kind t.text.toList

namespace Stretch

variable {ss : List Stretch} {rest : List Char}

theorem Longest.nil : Longest [] rest := by
  intro as t bs h
  simp at h

theorem Longest.cons_trivia {s : Stretch} (hs : s.token? = none) (h : Longest ss rest) :
    Longest (s :: ss) rest := by
  intro as t bs heq
  cases as with
  | nil =>
    cases heq
    cases hs
  | cons a as =>
    cases heq
    exact h as t bs rfl

theorem Longest.cons_token {t : Token}
    (ht : IsLongest (textOf ss ++ rest) t.kind t.text.toList) (h : Longest ss rest) :
    Longest (.token t :: ss) rest := by
  intro as u bs heq
  cases as with
  | nil =>
    cases heq
    exact ht
  | cons a as =>
    cases heq
    exact h as u bs rfl

end Stretch

namespace Source

variable {open_ : Brackets} {begun : Bool} {src : Source}

/-- What reading on reads off a source, up to where it is stopped. -/
theorem exists_longest_scanFrom (open_ : Brackets) (begun : Bool) (src : Source) :
    ∃ ss mid, Reads src ss mid ∧ tokensOf ss = (src.scanFrom open_ begun).tokens
      ∧ ((src.scanFrom open_ begun).flaw = none → mid = (src.scanFrom open_ begun).source)
      ∧ Longest ss mid.rest := by
  induction open_, begun, src using induction_on_moves with
  | skip open_ begun src next hmove ih =>
    obtain ⟨ss, mid, hreads, htokens, hmid, hss⟩ := ih
    rw [scanFrom_of_skip hmove]
    cases moves_of_eq hmove with
    | blank hpiece =>
      exact ⟨_ :: ss, mid, .trivia (text_append_of_piece? hpiece).symm (isTrivia_of_blank hpiece)
        hreads, htokens, hmid, hss.cons_trivia rfl⟩
    | separator hpiece =>
      exact ⟨_ :: ss, mid, .trivia (text_append_of_piece? hpiece).symm
        (isTrivia_of_separator hpiece) hreads, htokens, hmid, hss.cons_trivia rfl⟩
  | form open_ begun src kind text open' next hmove ih =>
    obtain ⟨ss, mid, hreads, htokens, hmid, hss⟩ := ih
    rw [scanFrom_of_form hmove]
    cases moves_of_eq hmove with
    | @lexeme _ _ rest _ hpiece hpass =>
      have hlist : (String.ofList text).toList = text := String.toList_ofList
      have hrest : rest = textOf ss ++ mid.rest := hreads.rest_eq
      have hlongest := isLongest_of_piece? hpiece
      rw [hrest] at hlongest
      have htext : src.rest = (String.ofList text).toList ++ rest := by
        rw [hlist]
        exact (text_append_of_piece? hpiece).symm
      refine ⟨.token ⟨kind, String.ofList text, src.line⟩ :: ss, mid, .token htext ?_ rfl ?_,
        congrArg (_ :: ·) htokens, hmid, hss.cons_token ?_⟩
      · intro hempty
        refine text_ne_nil_of_piece? hpiece (hlist.symm.trans ?_)
        exact congrArg String.toList hempty
      · rwa [hlist]
      · rwa [hlist]
  | stop open_ begun src next flaw hmove =>
    rw [scanFrom_of_stop hmove]
    cases moves_of_eq hmove with
    | finished hpiece =>
      exact ⟨_, _, .trivia (text_append_of_piece? hpiece).symm (isTrivia_of_separator hpiece)
        (.nil _), rfl, fun _ => rfl, .cons_trivia rfl .nil⟩
    | ended => exact ⟨[], src, .nil src, rfl, fun _ => rfl, .nil⟩
    | _ => exact ⟨[], src, .nil src, rfl, nofun, .nil⟩

end Source

/-! ## Texts and kinds -/

/-- The texts of operators. -/
def operatorTexts : List (List Char) :=
  doubleOperators.map (fun (c, d) => [c, d]) ++ singleOperators.map ([·])

namespace Token.IsLexeme

variable {t : Token}

theorem isLongest (h : t.IsLexeme) : IsLongest [] t.kind t.text.toList := isLongest_of_piece? h

theorem kind_eq_of_text_eq {t' : Token} (h : t.IsLexeme) (h' : t'.IsLexeme)
    (htext : t'.text = t.text) : t'.kind = t.kind := h'.kind_eq htext h

/-- **The keywords are the reserved words.** -/
theorem kind_eq_keyword_iff (h : t.IsLexeme) : t.kind = .keyword ↔ t.text ∈ reservedWords := by
  constructor
  · intro hkind
    have hlongest := h.isLongest
    rw [hkind] at hlongest
    generalize hcs : t.text.toList = cs at hlongest
    cases hlongest with
    | keyword hmem => rwa [← hcs, String.ofList_toList] at hmem
    | string q hq => cases q <;> cases hq
  · intro hmem
    have hread : ∀ word ∈ reservedWords,
        piece? word.toList = some (.lexeme .keyword word.toList, []) := by decide +kernel
    exact h.kind_eq rfl (hread _ hmem)

theorem kind_eq_operator_iff (h : t.IsLexeme) :
    t.kind = .operator ↔ t.text.toList ∈ operatorTexts := by
  constructor
  · intro hkind
    have hlongest := h.isLongest
    rw [hkind] at hlongest
    generalize t.text.toList = cs at hlongest
    cases hlongest with
    | string q hq => cases q <;> cases hq
    | double hmem => exact List.mem_append_left _ (List.mem_map.mpr ⟨_, hmem, rfl⟩)
    | single hmem => exact List.mem_append_right _ (List.mem_map.mpr ⟨_, hmem, rfl⟩)
  · intro hmem
    have hread : ∀ cs ∈ operatorTexts, piece? cs = some (.lexeme .operator cs, []) := by
      decide +kernel
    exact h.kind_eq rfl (hread _ hmem)

end Token.IsLexeme

/-- **Every token is the longest lexeme of its kind, and its text tells its kind.**  The tokens of a
call are read off its source, each as the longest lexeme before the text that follows it there.
Keywords are the reserved words, operators those of the list, and tokens with one text, of this scan
or of another, are of one kind. -/
theorem Source.scan_longest (src : Source) :
    (∃ ss mid, Reads src ss mid ∧ tokensOf ss = src.scan.tokens
      ∧ (src.scan.flaw = none → mid = src.scan.source)
      ∧ ∀ as t bs, ss = as ++ .token t :: bs →
          IsLongest (textOf bs ++ mid.rest) t.kind t.text.toList)
    ∧ ∀ t ∈ src.scan.tokens, (t.kind = .keyword ↔ t.text ∈ reservedWords)
      ∧ (t.kind = .operator ↔ t.text.toList ∈ operatorTexts)
      ∧ ∀ src' : Source, ∀ t' ∈ src'.scan.tokens, t'.text = t.text → t'.kind = t.kind := by
  refine ⟨exists_longest_scanFrom [] false src, fun t ht => ?_⟩
  have hlexeme := isLexeme_of_mem_scan ht
  exact ⟨hlexeme.kind_eq_keyword_iff, hlexeme.kind_eq_operator_iff,
    fun src' t' ht' => hlexeme.kind_eq_of_text_eq (isLexeme_of_mem_scan ht')⟩

/-- The quote behind the backslash is part of the string and the next three close it; the last one
begins another string, which is never closed. -/
example : (Source.ofString "'''a\\'''''").scan.tokens
    = [⟨.longString, "'''a\\''''", 1⟩] := by decide +kernel

end ScriptReader

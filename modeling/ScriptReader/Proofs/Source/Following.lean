import Mathlib.Data.List.TakeWhile
import ScriptReader.Proofs.Source.Lexeme

/-!
# Proofs/Source/Following — a lexeme is read wherever what follows does not go on with it

What is read at the head of a text is the longest lexeme, so a token is read off a text only if what
follows it cannot be taken for more of it: `Token.EndsBefore`.  `piece?_append` says that this is
enough.
-/

namespace ScriptReader

open ScriptReader.Text

/-! ## What may follow -/

/-- What follows a numeral is no more of it. -/
def NumeralEnds (rest : List Char) : List Char → Prop
  | '0' :: 'x' :: _ => ∀ c ∈ rest.head?, isHexDigit c = false
  | '0' :: 'X' :: _ => ∀ c ∈ rest.head?, isHexDigit c = false
  | cs => (∀ c ∈ rest.head?, isDigit c = false)
    ∧ ('.' ∉ cs → ∀ d tail, rest = '.' :: d :: tail → isDigit d = false)
    ∧ (cs = ['0'] → ∀ c ∈ rest.head?, c ≠ 'x' ∧ c ≠ 'X')

/-- **What follows the token does not go on with it.**  A word goes on with letters and digits, an
operator with what makes a longer one, and two quotes with a third one. -/
def Token.EndsBefore (rest : List Char) (t : Token) : Prop :=
  match t.kind with
  | .keyword | .identifier => ∀ c ∈ rest.head?, isWordPart c = false
  | .number => NumeralEnds rest t.text.toList
  | .operator => ∀ c, t.text.toList = [c] → ∀ d ∈ rest.head?, (c, d) ∉ doubleOperators
  | .apostropheString | .quotedString => ∀ q, t.text.toList = [q, q] → ∀ c ∈ rest.head?, c ≠ q
  | .longString | .unknown => True

/-- **Blanks and line breaks go on with no token.** -/
theorem Token.IsLexeme.endsBefore {t : Token} (ht : t.IsLexeme) {rest : List Char}
    (hr : ∀ c ∈ rest.head?, c = ' ' ∨ c = '\n') : t.EndsBefore rest := by
  have head {p : Char → Prop} (h : p ' ') (h' : p '\n') : ∀ c ∈ rest.head?, p c := fun c hc => by
    rcases hr c hc with rfl | rfl
    · exact h
    · exact h'
  -- no lexeme begins with a blank or a line break, as two quotes would have to
  have quotes : ∀ q, t.text.toList = [q, q] → ∀ c ∈ rest.head?, c ≠ q := by
    rintro q hq
    rw [Token.IsLexeme, hq] at ht
    refine head ?_ ?_
    · rintro rfl
      cases ht
    · rintro rfl
      cases ht
  unfold Token.EndsBefore
  split
  · exact head (by decide) (by decide)
  · exact head (by decide) (by decide)
  · unfold NumeralEnds
    split
    · exact head (by decide) (by decide)
    · exact head (by decide) (by decide)
    · refine ⟨head (by decide) (by decide), fun _ d tail h => ?_,
        fun _ => head (by decide) (by decide)⟩
      rcases hr '.' (by rw [h]; rfl) with h | h
      · exact absurd h (by decide)
      · exact absurd h (by decide)
  · intro c _
    have hsecond : ∀ x ∈ doubleOperators, x.2 ≠ ' ' ∧ x.2 ≠ '\n' := by decide
    exact head (fun h => (hsecond _ h).1 rfl) (fun h => (hsecond _ h).2 rfl)
  · exact quotes
  · exact quotes
  · trivial
  · trivial

/-! ## Runs of characters -/

section Runs

variable {p : Char → Bool} {as rest : List Char} (ha : ∀ c ∈ as, p c = true)
  (hr : ∀ c ∈ rest.head?, p c = false)
include ha hr

theorem takeWhile_append_of_boundary : (as ++ rest).takeWhile p = as := by
  rw [List.takeWhile_append_of_pos ha]
  cases rest with
  | nil => rw [List.takeWhile_nil, List.append_nil]
  | cons c rest =>
    rw [List.takeWhile_cons_of_neg (by rw [hr c rfl]; exact Bool.false_ne_true), List.append_nil]

theorem dropWhile_append_of_boundary : (as ++ rest).dropWhile p = rest := by
  rw [List.dropWhile_append_of_pos ha]
  cases rest with
  | nil => rw [List.dropWhile_nil]
  | cons c rest =>
    rw [List.dropWhile_cons_of_neg (by rw [hr c rfl]; exact Bool.false_ne_true)]

end Runs

/-! ## Words and numerals -/

theorem word_append {kind : Kind} {text cs rest : List Char}
    (h : word cs = (.lexeme kind text, [])) (hr : ∀ c ∈ rest.head?, isWordPart c = false) :
    word (cs ++ rest) = (.lexeme kind text, rest) := by
  simp only [word, Prod.mk.injEq, Piece.lexeme.injEq] at h
  obtain ⟨⟨hkind, htext⟩, hrest⟩ := h
  have hall := List.dropWhile_eq_nil_iff.mp hrest
  have hself : cs.takeWhile isWordPart = cs := List.takeWhile_eq_self_iff.mpr hall
  rw [word, takeWhile_append_of_boundary hall hr, dropWhile_append_of_boundary hall hr, ← hkind,
    ← htext, hself]

/-- Digits alone, where no point with a digit follows. -/
theorem decimal_digits_append {cs rest : List Char} (hall : ∀ c ∈ cs, isDigit c = true)
    (hr : ∀ c ∈ rest.head?, isDigit c = false)
    (hpoint : ∀ d tail, rest = '.' :: d :: tail → isDigit d = false) :
    decimal (cs ++ rest) = (.lexeme .number cs, rest) := by
  rw [decimal, takeWhile_append_of_boundary hall hr, dropWhile_append_of_boundary hall hr]
  split
  · next d tail =>
    rw [if_neg (by rw [hpoint d tail rfl]; exact Bool.false_ne_true)]
  · rfl

theorem decimal_append {kind : Kind} {text cs rest : List Char}
    (h : decimal cs = (.lexeme kind text, [])) (hr : ∀ c ∈ rest.head?, isDigit c = false)
    (hpoint : '.' ∉ cs → ∀ d tail, rest = '.' :: d :: tail → isDigit d = false) :
    decimal (cs ++ rest) = (.lexeme kind text, rest) := by
  have hsplit := List.takeWhile_append_dropWhile (p := isDigit) (l := cs)
  have hwhole : ∀ c ∈ cs.takeWhile isDigit, isDigit c = true := fun c => List.mem_takeWhile_imp
  unfold decimal at h
  split at h
  · next d tail hafter =>
    split at h
    · next hd =>
      simp only [Prod.mk.injEq, Piece.lexeme.injEq] at h
      obtain ⟨⟨rfl, rfl⟩, hrest⟩ := h
      have hall := List.dropWhile_eq_nil_iff.mp hrest
      have hself : (d :: tail).takeWhile isDigit = d :: tail := List.takeWhile_eq_self_iff.mpr hall
      have hboundary : ∀ c ∈ ('.' :: (d :: tail ++ rest)).head?, isDigit c = false := by
        intro c hc
        cases hc
        rfl
      have hcs : cs ++ rest = cs.takeWhile isDigit ++ '.' :: (d :: tail ++ rest) := by
        rw [← List.cons_append, ← hafter, ← List.append_assoc, hsplit]
      rw [hcs, decimal, takeWhile_append_of_boundary hwhole hboundary,
        dropWhile_append_of_boundary hwhole hboundary, hself]
      have htake := takeWhile_append_of_boundary hall hr
      have hdrop := dropWhile_append_of_boundary hall hr
      rw [List.cons_append] at htake hdrop ⊢
      simp only [hd, if_true, htake, hdrop]
    · simp only [Prod.mk.injEq, reduceCtorEq, and_false] at h
  · simp only [Prod.mk.injEq, Piece.lexeme.injEq] at h
    obtain ⟨⟨rfl, rfl⟩, hrest⟩ := h
    have hall := List.dropWhile_eq_nil_iff.mp hrest
    rw [List.takeWhile_eq_self_iff.mpr hall]
    refine decimal_digits_append hall hr (hpoint fun hdot => ?_)
    exact absurd (hall '.' hdot) (by decide)

theorem hexadecimal_append {x : Char} {cs rest : List Char} (hcs : cs.dropWhile isHexDigit = [])
    (hr : ∀ c ∈ rest.head?, isHexDigit c = false) :
    (Piece.lexeme .number ('0' :: x :: (cs ++ rest).takeWhile isHexDigit),
        (cs ++ rest).dropWhile isHexDigit)
      = (.lexeme .number ('0' :: x :: cs.takeWhile isHexDigit), rest) := by
  have hall := List.dropWhile_eq_nil_iff.mp hcs
  rw [takeWhile_append_of_boundary hall hr, dropWhile_append_of_boundary hall hr,
    List.takeWhile_eq_self_iff.mpr hall]

/-- A zero alone must not meet the letter that makes it hexadecimal. -/
theorem append_ne_hexadecimal {x : Char} {cs rest : List Char} (hne : ∀ tail, cs ≠ '0' :: x :: tail)
    (hr : ∀ c ∈ rest.head?, isDigit c = false) (hzero : cs = ['0'] → ∀ c ∈ rest.head?, c ≠ x)
    (tail : List Char) : cs ++ rest ≠ '0' :: x :: tail := by
  rintro heq
  rcases cs with - | ⟨c, - | ⟨d, cs⟩⟩
  · have hrest : rest = '0' :: x :: tail := heq
    exact absurd (hr '0' (by rw [hrest]; rfl)) (by decide)
  · cases heq
    exact hzero rfl x rfl rfl
  · cases heq
    exact hne cs rfl

theorem numeral_append {kind : Kind} {text cs rest : List Char}
    (h : numeral cs = (.lexeme kind text, [])) (hr : NumeralEnds rest cs) :
    numeral (cs ++ rest) = (.lexeme kind text, rest) := by
  unfold numeral at h
  split at h
  · simp only [Prod.mk.injEq, Piece.lexeme.injEq] at h
    obtain ⟨⟨rfl, rfl⟩, hrest⟩ := h
    exact hexadecimal_append hrest hr
  · simp only [Prod.mk.injEq, Piece.lexeme.injEq] at h
    obtain ⟨⟨rfl, rfl⟩, hrest⟩ := h
    exact hexadecimal_append hrest hr
  · next hx hX =>
    unfold NumeralEnds at hr
    split at hr
    · exact absurd rfl (hx _)
    · exact absurd rfl (hX _)
    obtain ⟨hdigit, hpoint, hzero⟩ := hr
    rw [← decimal_append h hdigit hpoint]
    unfold numeral
    split
    · next heq =>
      exact absurd heq (append_ne_hexadecimal hx hdigit (fun h c hc => (hzero h c hc).1) _)
    · next heq =>
      exact absurd heq (append_ne_hexadecimal hX hdigit (fun h c hc => (hzero h c hc).2) _)
    · rfl

/-! ## Strings -/

namespace StringTail

/-- What is no escape does not begin with a backslash, if anything follows. -/
theorem ne_backslash {c : Char} {cs : List Char}
    (hne : ∀ (d : Char) (ds : List Char), c = '\\' → cs = d :: ds → False) (hcs : cs ≠ []) :
    c ≠ '\\' := fun hc => by
  obtain ⟨d, ds, rfl⟩ := List.exists_cons_of_ne_nil hcs
  exact hne d ds hc rfl

section Append

variable {quote : Char} (hquote : quote ≠ '\\') {cs : List Char} (rest : List Char)
include hquote

/-- A closed string does not look past its closing quote. -/
theorem short_append (h : (short quote cs).closed = true) :
    short quote (cs ++ rest)
      = { short quote cs with rest := (short quote cs).rest ++ rest } := by
  fun_induction short quote cs with
  | case1 => cases h
  | case2 c cs ih =>
    rw [List.cons_append, List.cons_append, short, ih h]
    rfl
  | case3 cs hne =>
    rw [List.cons_append, short, if_pos rfl]
    exact fun _ _ hc _ => hquote hc
  | case4 => cases h
  | case5 c cs hne hq hn ih =>
    have hc := ne_backslash hne (by rintro rfl; cases h)
    rw [List.cons_append, short, if_neg hq, if_neg hn, ih h]
    · rfl
    · exact fun _ _ h _ => hc h

omit hquote in
/-- Its closing quotes are three characters. -/
theorem three_le_length_of_closed (h : (long quote cs).closed = true) : 3 ≤ cs.length := by
  fun_induction long quote cs with
  | case1 => cases h
  | case2 c cs ih =>
    have := ih h
    simp only [List.length_cons]
    omega
  | case3 c cs hne hq =>
    have := congrArg List.length hq.2
    rw [List.length_take] at this
    simp only [List.length_cons, List.length_nil] at this ⊢
    omega
  | case4 c cs _ _ ih =>
    have := ih h
    rw [List.length_cons]
    omega

theorem long_append (h : (long quote cs).closed = true) :
    long quote (cs ++ rest)
      = { long quote cs with rest := (long quote cs).rest ++ rest } := by
  fun_induction long quote cs with
  | case1 => cases h
  | case2 c cs ih =>
    rw [List.cons_append, List.cons_append, long, ih h]
    rfl
  | case3 c cs hne hq =>
    have hlen := congrArg List.length hq.2
    rw [List.length_take] at hlen
    simp only [List.length_cons, List.length_nil] at hlen
    have htake : (cs ++ rest).take 2 = cs.take 2 := List.take_append_of_le_length (by omega)
    have hdrop : (cs ++ rest).drop 2 = cs.drop 2 ++ rest :=
      List.drop_append_of_le_length (by omega)
    rw [List.cons_append, long, htake, hdrop, if_pos hq]
    exact fun _ _ hc _ => hquote (hq.1.symm.trans hc)
  | case4 c cs hne hq ih =>
    have hlen := three_le_length_of_closed h
    have htake : (cs ++ rest).take 2 = cs.take 2 := List.take_append_of_le_length (by omega)
    have hc := ne_backslash hne (by rintro rfl; cases h)
    rw [List.cons_append, long, htake, if_neg hq, ih h]
    · rfl
    · exact fun _ _ h _ => hc h

end Append

end StringTail

section String

variable {quote : Char} {cs rest : List Char}

/-- Two quotes are no three as long as no third one follows. -/
theorem isTripled_append (hne : cs ≠ [])
    (hr : quote :: cs = [quote, quote] → ∀ c ∈ rest.head?, c ≠ quote) :
    isTripled quote (cs ++ rest) = isTripled quote cs := by
  rcases cs with - | ⟨c, - | ⟨d, cs⟩⟩
  · exact absurd rfl hne
  · have hshort : isTripled quote [c] = false := by
      rw [isTripled, beq_eq_false_iff_ne]
      simp
    rw [hshort, isTripled, beq_eq_false_iff_ne]
    intro h
    rw [List.singleton_append, List.take_succ_cons, List.cons.injEq] at h
    obtain ⟨rfl, hrest⟩ := h
    obtain ⟨d, rest, rfl⟩ := List.exists_cons_of_ne_nil
      (l := rest) (by rintro rfl; cases hrest)
    rw [List.take_succ_cons, List.take_zero, List.cons.injEq] at hrest
    exact hr rfl d rfl hrest.1
  · rfl

theorem stringTail_append (hquote : quote ≠ '\\') (hclosed : (stringTail quote cs).closed = true)
    (htripled : isTripled quote (cs ++ rest) = isTripled quote cs) :
    stringTail quote (cs ++ rest)
      = { stringTail quote cs with rest := (stringTail quote cs).rest ++ rest } := by
  unfold stringTail at hclosed ⊢
  rw [htripled]
  split
  · next htwo =>
    rw [if_pos htwo] at hclosed
    have hlen : 2 ≤ cs.length := by
      have := congrArg List.length (beq_iff_eq.mp htwo)
      rw [List.length_take] at this
      simp only [List.length_cons, List.length_nil] at this
      omega
    rw [List.take_append_of_le_length hlen, List.drop_append_of_le_length hlen,
      StringTail.long_append hquote rest hclosed]
    rfl
  · next htwo =>
    rw [if_neg htwo] at hclosed
    exact StringTail.short_append hquote rest hclosed

theorem closed_of_string {kind : Kind} {text : List Char}
    (h : string quote cs = (.lexeme kind text, rest)) : (stringTail quote cs).closed = true := by
  cases hopen : (stringTail quote cs).closed with
  | true => rfl
  | false =>
    simp only [string, hopen] at h
    cases h

theorem string_append (hquote : quote ≠ '\\') {kind : Kind} {text : List Char}
    (h : string quote cs = (.lexeme kind text, []))
    (hr : quote :: cs = [quote, quote] → ∀ c ∈ rest.head?, c ≠ quote) :
    string quote (cs ++ rest) = (.lexeme kind text, rest) := by
  have hclosed := closed_of_string h
  have hne : cs ≠ [] := by rintro rfl; cases hclosed
  have htripled := isTripled_append hne hr
  have htail := stringTail_append hquote hclosed htripled
  have hkind : stringKind quote (cs ++ rest) = stringKind quote cs := by
    rw [stringKind, stringKind, htripled]
  simp only [string, hclosed, if_true, Prod.mk.injEq, Piece.lexeme.injEq] at h
  obtain ⟨⟨hk, ht⟩, hrest⟩ := h
  simp only [string, htail, hclosed, if_true, hkind, hk, ht, hrest, List.nil_append]

end String

/-! ## Operators -/

theorem operator?_append {c : Char} {kind : Kind} {text cs rest : List Char}
    (h : operator? c cs = some (.lexeme kind text, []))
    (hr : c :: cs = [c] → ∀ d ∈ rest.head?, (c, d) ∉ doubleOperators) :
    operator? c (cs ++ rest) = some (.lexeme kind text, rest) := by
  cases cs with
  | nil =>
    rw [operator?] at h
    split at h
    · next hsingle =>
      simp only [Option.some.injEq, Prod.mk.injEq, Piece.lexeme.injEq, and_true] at h
      obtain ⟨rfl, rfl⟩ := h
      cases rest with
      | nil => rw [List.append_nil, operator?, if_pos hsingle]
      | cons d rest => rw [List.nil_append, operator?, if_neg (hr rfl d rfl), if_pos hsingle]
    · cases h
  | cons d cs =>
    rw [operator?] at h
    split at h
    · next hdouble =>
      simp only [Option.some.injEq, Prod.mk.injEq, Piece.lexeme.injEq] at h
      obtain ⟨⟨rfl, rfl⟩, rfl⟩ := h
      rw [List.cons_append, operator?, if_pos hdouble, List.nil_append]
    · split at h
      · simp only [Option.some.injEq, Prod.mk.injEq, reduceCtorEq, and_false] at h
      · cases h

/-! ## Lexemes -/

theorem kind_string {quote : Char} {kind : Kind} {text cs rest : List Char}
    (h : string quote cs = (.lexeme kind text, rest)) : kind = stringKind quote cs := by
  simp only [string, Prod.mk.injEq] at h
  obtain ⟨h, -⟩ := h
  split at h
  · cases h
    rfl
  · cases h

/-- Two quotes are the empty string between single quotes, not the beginning of a long one. -/
theorem kind_empty_string {quote : Char} {kind : Kind} {text rest : List Char}
    (h : string quote [quote] = (.lexeme kind text, rest)) :
    kind = .quotedString ∨ kind = .apostropheString := by
  rw [kind_string h, stringKind, if_neg]
  · split
    · exact .inl rfl
    · exact .inr rfl
  · rw [isTripled, beq_iff_eq]
    simp

theorem kind_numeral {kind : Kind} {text cs rest : List Char}
    (h : numeral cs = (.lexeme kind text, rest)) : kind = .number := by
  unfold numeral decimal at h
  repeat' split at h
  all_goals
    cases h
    rfl

theorem kind_word {kind : Kind} {text cs rest : List Char}
    (h : word cs = (.lexeme kind text, rest)) : kind = .keyword ∨ kind = .identifier := by
  simp only [word, Prod.mk.injEq, Piece.lexeme.injEq] at h
  rw [← h.1.1]
  split
  · exact .inl rfl
  · exact .inr rfl

theorem kind_operator? {c : Char} {kind : Kind} {text cs rest : List Char}
    (h : operator? c cs = some (.lexeme kind text, rest)) : kind = .operator := by
  unfold operator? at h
  repeat' split at h
  all_goals cases h <;> rfl

/-- **What reads a lexeme** of its first character: a string, a numeral, a word or an operator,
whatever follows the character. -/
inductive LexemeAt (c : Char) (cs : List Char) (r : Reading) : Prop
  | ofString (hall : ∀ ds, pieceAt? c ds = some (string c ds)) (hslash : c ≠ '\\')
      (h : string c cs = r)
  | ofNumeral (hall : ∀ ds, pieceAt? c ds = some (numeral (c :: ds))) (h : numeral (c :: cs) = r)
  | ofWord (hall : ∀ ds, pieceAt? c ds = some (word (c :: ds))) (h : word (c :: cs) = r)
  | ofOperator (hall : ∀ ds, pieceAt? c ds = operator? c ds) (h : operator? c cs = some r)

theorem lexemeAt_of_pieceAt? {c : Char} {kind : Kind} {text cs rest : List Char}
    (h : pieceAt? c cs = some (.lexeme kind text, rest)) :
    LexemeAt c cs (.lexeme kind text, rest) := by
  rw [pieceAt?] at h
  by_cases hblank : isBlank c
  · rw [if_pos hblank] at h
    cases h
  by_cases hcomment : c = '#'
  · rw [if_neg hblank, if_pos hcomment] at h
    cases h
  by_cases hseparator : c = '\n' ∨ c = ';'
  · rw [if_neg hblank, if_neg hcomment, if_pos hseparator] at h
    cases h
  rw [if_neg hblank, if_neg hcomment, if_neg hseparator] at h
  by_cases hslash : c = '\\'
  · rw [if_pos hslash, Option.some.injEq] at h
    unfold continuation at h
    repeat' split at h
    all_goals cases h
  have hall (ds : List Char) : pieceAt? c ds = if c = '"' ∨ c = '\'' then some (string c ds)
      else if isDigit c then some (numeral (c :: ds))
      else if isWordStart c then some (word (c :: ds)) else operator? c ds := by
    rw [pieceAt?, if_neg hblank, if_neg hcomment, if_neg hseparator, if_neg hslash]
  rw [if_neg hslash] at h
  by_cases hquote : c = '"' ∨ c = '\''
  · rw [if_pos hquote] at h
    exact .ofString (fun ds => by rw [hall, if_pos hquote]) hslash (Option.some.inj h)
  rw [if_neg hquote] at h
  by_cases hdigit : isDigit c
  · rw [if_pos hdigit] at h
    exact .ofNumeral (fun ds => by rw [hall, if_neg hquote, if_pos hdigit]) (Option.some.inj h)
  rw [if_neg hdigit] at h
  by_cases hword : isWordStart c
  · rw [if_pos hword] at h
    exact .ofWord (fun ds => by rw [hall, if_neg hquote, if_neg hdigit, if_pos hword])
      (Option.some.inj h)
  rw [if_neg hword] at h
  exact .ofOperator (fun ds => by rw [hall, if_neg hquote, if_neg hdigit, if_neg hword]) h

/-- **A token is read off any text that goes on behind it as it may.** -/
theorem piece?_append {t : Token} {rest : List Char} (ht : t.IsLexeme) (hr : t.EndsBefore rest) :
    piece? (t.text.toList ++ rest) = some (.lexeme t.kind t.text.toList, rest) := by
  obtain ⟨kind, text, line⟩ := t
  simp only [Token.IsLexeme, Token.EndsBefore] at ht hr ⊢
  generalize text.toList = text at ht hr ⊢
  cases text with
  | nil => cases ht
  | cons c cs =>
    rw [List.cons_append, piece?]
    cases lexemeAt_of_pieceAt? ht with
    | ofString hall hslash h =>
      rw [hall]
      refine congrArg some (string_append hslash h fun htwo => ?_)
      rw [(List.cons.inj htwo).2] at h
      rcases kind_empty_string h with rfl | rfl
      · exact hr c htwo
      · exact hr c htwo
    | ofNumeral hall h =>
      obtain rfl := kind_numeral h
      rw [hall]
      exact congrArg some (numeral_append h hr)
    | ofWord hall h =>
      rw [hall]
      refine congrArg some (word_append h ?_)
      rcases kind_word h with rfl | rfl
      · exact hr
      · exact hr
    | ofOperator hall h =>
      obtain rfl := kind_operator? h
      rw [hall]
      exact operator?_append h fun hone => hr c hone

end ScriptReader

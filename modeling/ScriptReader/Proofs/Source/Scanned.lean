import ScriptReader.Proofs.Source.Following
import ScriptReader.Source.Statement

/-!
# Proofs/Source/Scanned — a scanned token is what its own text reads as

What is read off the head of a text would be read off the same way if nothing followed it
(`piece?_text`).  So every token of a scan is a lexeme, and its text tells what kind of token it is:
`isLexeme_of_mem_scan`.
-/

namespace ScriptReader

open ScriptReader.Text

/-! ## Strings -/

namespace StringTail

variable {quote : Char} {cs : List Char}

theorem short_text (h : (short quote cs).closed = true) :
    short quote (short quote cs).text = ⟨(short quote cs).text, [], true⟩ := by
  fun_induction short quote cs with
  | case1 => cases h
  | case2 c cs ih =>
    rw [text_prepend, List.cons_append, List.cons_append, List.nil_append, short, ih h]
    rfl
  | case3 cs hne =>
    rw [short, if_pos rfl]
    intro c cs _ hcs
    cases hcs
  | case4 => cases h
  | case5 c cs hne hq hn ih =>
    have hc := ne_backslash hne (by rintro rfl; cases h)
    rw [text_prepend, List.singleton_append, short, if_neg hq, if_neg hn, ih h]
    · rfl
    · exact fun _ _ h _ => hc h

theorem three_le_length_text (h : (long quote cs).closed = true) :
    3 ≤ (long quote cs).text.length := by
  fun_induction long quote cs with
  | case1 => cases h
  | case2 c cs ih =>
    have := ih h
    simp only [text_prepend, List.length_append, List.length_cons]
    omega
  | case3 c cs hne hq =>
    rw [hq.2]
    rfl
  | case4 c cs _ _ ih =>
    have := ih h
    simp only [text_prepend, List.length_append, List.length_cons]
    omega

theorem long_text (h : (long quote cs).closed = true) :
    long quote (long quote cs).text = ⟨(long quote cs).text, [], true⟩ := by
  fun_induction long quote cs with
  | case1 => cases h
  | case2 c cs ih =>
    rw [text_prepend, List.cons_append, List.cons_append, List.nil_append, long, ih h]
    rfl
  | case3 c cs hne hq =>
    rw [hq.2, long, if_pos ⟨hq.1, rfl⟩]
    · rfl
    · rintro d ds rfl hds
      obtain ⟨c, cs, rfl⟩ := List.exists_cons_of_ne_nil (l := cs) (by rintro rfl; cases hq.2)
      exact hne c cs rfl rfl
  | case4 c cs hne hq ih =>
    have hc := ne_backslash hne (by rintro rfl; cases h)
    have htake : (long quote cs).text.take 2 = cs.take 2 := by
      have hlen : 3 ≤ (long quote cs).text.length := three_le_length_text h
      have happend : ((long quote cs).text ++ (long quote cs).rest).take 2
          = (long quote cs).text.take 2 := List.take_append_of_le_length (by omega)
      rw [← happend, text_append_long]
    rw [text_prepend, List.singleton_append, long, htake, if_neg hq, ih h]
    · rfl
    · exact fun _ _ h _ => hc h

end StringTail

theorem stringTail_text {quote : Char} {cs : List Char} (h : (stringTail quote cs).closed = true) :
    isTripled quote (stringTail quote cs).text = isTripled quote cs
      ∧ stringTail quote (stringTail quote cs).text = ⟨(stringTail quote cs).text, [], true⟩ := by
  cases htripled : isTripled quote cs with
  | true =>
    have htwo (ds : List Char) : isTripled quote ([quote, quote] ++ ds) = true :=
      beq_iff_eq.mpr rfl
    rw [stringTail, if_pos htripled] at h ⊢
    have hclosed := StringTail.long_text h
    rw [StringTail.text_prepend, beq_iff_eq.mp htripled]
    refine ⟨htwo _, ?_⟩
    rw [stringTail, if_pos (htwo _)]
    exact congrArg (StringTail.prepend [quote, quote]) hclosed
  | false =>
    rw [stringTail, htripled, if_neg Bool.false_ne_true] at h ⊢
    have htwo : isTripled quote (StringTail.short quote cs).text = false := by
      rw [isTripled, beq_eq_false_iff_ne] at htripled ⊢
      intro hquotes
      have hlen := congrArg List.length hquotes
      simp only [List.length_take, List.length_cons, List.length_nil] at hlen
      rw [← StringTail.text_append_short quote cs, List.take_append_of_le_length (by omega)]
        at htripled
      exact htripled hquotes
    refine ⟨htwo, ?_⟩
    rw [stringTail, htwo, if_neg Bool.false_ne_true]
    exact StringTail.short_text h

theorem string_text {quote : Char} {kind : Kind} {text cs rest : List Char}
    (h : string quote cs = (.lexeme kind text, rest)) :
    ∃ tail, text = quote :: tail ∧ string quote tail = (.lexeme kind text, []) := by
  have hclosed := closed_of_string h
  obtain ⟨htripled, htail⟩ := stringTail_text hclosed
  simp only [string, hclosed, if_true, Prod.mk.injEq, Piece.lexeme.injEq] at h
  obtain ⟨⟨rfl, rfl⟩, -⟩ := h
  refine ⟨_, rfl, ?_⟩
  simp only [string, htail, if_true, stringKind, htripled]

/-! ## Words, numerals and operators -/

theorem word_text {kind : Kind} {text cs rest : List Char}
    (h : word cs = (.lexeme kind text, rest)) : word text = (.lexeme kind text, []) := by
  simp only [word, Prod.mk.injEq, Piece.lexeme.injEq] at h
  obtain ⟨⟨hkind, rfl⟩, -⟩ := h
  have hall : ∀ c ∈ cs.takeWhile isWordPart, isWordPart c = true := fun _ => List.mem_takeWhile_imp
  rw [word, List.takeWhile_eq_self_iff.mpr hall, List.dropWhile_eq_nil_iff.mpr hall, hkind]

theorem decimal_text {kind : Kind} {text cs rest : List Char}
    (h : decimal cs = (.lexeme kind text, rest)) : decimal text = (.lexeme kind text, []) := by
  have hwhole : ∀ c ∈ cs.takeWhile isDigit, isDigit c = true := fun _ => List.mem_takeWhile_imp
  have hdigits : decimal (cs.takeWhile isDigit) = (.lexeme .number (cs.takeWhile isDigit), []) := by
    have hnone : ∀ c ∈ ([] : List Char).head?, isDigit c = false := nofun
    rw [← decimal_digits_append hwhole hnone nofun, List.append_nil]
  unfold decimal at h
  split at h
  · next d tail _ =>
    split at h
    · next hd =>
      simp only [Prod.mk.injEq, Piece.lexeme.injEq] at h
      obtain ⟨⟨rfl, rfl⟩, -⟩ := h
      have hall : ∀ c ∈ (d :: tail).takeWhile isDigit, isDigit c = true :=
        fun _ => List.mem_takeWhile_imp
      have hboundary : ∀ c ∈ ('.' :: (d :: tail).takeWhile isDigit).head?, isDigit c = false := by
        intro c hc
        cases hc
        rfl
      rw [decimal, takeWhile_append_of_boundary hwhole hboundary,
        dropWhile_append_of_boundary hwhole hboundary]
      rw [List.takeWhile_cons_of_pos hd] at hall ⊢
      simp only [hd, if_true, List.takeWhile_eq_self_iff.mpr hall,
        List.dropWhile_eq_nil_iff.mpr hall]
    · simp only [Prod.mk.injEq, Piece.lexeme.injEq] at h
      obtain ⟨⟨rfl, rfl⟩, -⟩ := h
      exact hdigits
  · simp only [Prod.mk.injEq, Piece.lexeme.injEq] at h
    obtain ⟨⟨rfl, rfl⟩, -⟩ := h
    exact hdigits

theorem numeral_text {kind : Kind} {text cs rest : List Char}
    (h : numeral cs = (.lexeme kind text, rest)) : numeral text = (.lexeme kind text, []) := by
  have happend : text ++ rest = cs := by
    rw [← text_append_numeral cs, h]
    rfl
  have hex (cs : List Char) (c : Char) (hc : c ∈ cs.takeWhile isHexDigit) : isHexDigit c = true :=
    List.mem_takeWhile_imp hc
  unfold numeral at h
  split at h
  · simp only [Prod.mk.injEq, Piece.lexeme.injEq] at h
    obtain ⟨⟨rfl, rfl⟩, -⟩ := h
    rw [numeral, List.takeWhile_eq_self_iff.mpr (hex _), List.dropWhile_eq_nil_iff.mpr (hex _)]
  · simp only [Prod.mk.injEq, Piece.lexeme.injEq] at h
    obtain ⟨⟨rfl, rfl⟩, -⟩ := h
    rw [numeral, List.takeWhile_eq_self_iff.mpr (hex _), List.dropWhile_eq_nil_iff.mpr (hex _)]
  · next hx hX =>
    unfold numeral
    split
    · exact absurd happend.symm (hx _)
    · exact absurd happend.symm (hX _)
    · exact decimal_text h

theorem operator?_text {c : Char} {kind : Kind} {text cs rest : List Char}
    (h : operator? c cs = some (.lexeme kind text, rest)) :
    ∃ tail, text = c :: tail ∧ operator? c tail = some (.lexeme kind text, []) := by
  unfold operator? at h
  split at h
  · next d ds =>
    split at h
    · next hdouble =>
      cases h
      exact ⟨[d], rfl, by rw [operator?, if_pos hdouble]⟩
    · split at h
      · next hsingle =>
        cases h
        exact ⟨[], rfl, by rw [operator?, if_pos hsingle]⟩
      · cases h
  · split at h
    · next hsingle =>
      cases h
      exact ⟨[], rfl, by rw [operator?, if_pos hsingle]⟩
    · cases h

/-! ## Lexemes -/

/-- **A lexeme is the same without what follows it.** -/
theorem piece?_text {kind : Kind} {text cs rest : List Char}
    (h : piece? cs = some (.lexeme kind text, rest)) :
    piece? text = some (.lexeme kind text, []) := by
  cases cs with
  | nil => cases h
  | cons c cs =>
    -- the text begins with the same character, which decides what it is
    obtain ⟨tail, htext⟩ : ∃ tail, text = c :: tail := by
      obtain ⟨d, tail, rfl⟩ := List.exists_cons_of_ne_nil (text_pieceAt?_ne_nil h)
      have happend : d :: tail ++ rest = c :: cs := text_append_pieceAt? h
      exact ⟨tail, by rw [(List.cons.inj happend).1]⟩
    cases lexemeAt_of_pieceAt? h with
    | ofString hall _ h =>
      obtain ⟨tail, rfl, htail⟩ := string_text h
      rw [piece?, hall, htail]
    | ofNumeral hall h =>
      have hnumeral := numeral_text h
      rw [htext] at hnumeral ⊢
      rw [piece?, hall, hnumeral]
    | ofWord hall h =>
      have hword := word_text h
      rw [htext] at hword ⊢
      rw [piece?, hall, hword]
    | ofOperator hall h =>
      obtain ⟨tail, rfl, htail⟩ := operator?_text h
      rw [piece?, hall, htail]

/-! ## Scans -/

theorem isLexeme_of_mem_scanFrom (open_ : Brackets) (begun : Bool) (src : Source) :
    ∀ t ∈ (src.scanFrom open_ begun).tokens, t.IsLexeme := by
  fun_induction Source.scanFrom open_ begun src with
  | case3 => rename_i ih; exact ih
  | case5 => rename_i ih; exact ih
  | case6 =>
    rename_i hpiece _ _ ih
    refine List.forall_mem_cons.mpr ⟨?_, ih⟩
    rw [Token.IsLexeme, String.toList_ofList]
    exact piece?_text hpiece
  | _ =>
    intro t ht
    cases ht

/-- **Every token of a scan is what its own text reads as.** -/
theorem isLexeme_of_mem_scan {src : Source} {t : Token} (h : t ∈ src.scan.tokens) : t.IsLexeme :=
  isLexeme_of_mem_scanFrom [] false src t h

end ScriptReader

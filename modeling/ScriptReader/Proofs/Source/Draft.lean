import ScriptReader.Proofs.Phrase.Joined
import ScriptReader.Proofs.Source.Layout

/-!
# Proofs/Source/Draft — lines of tokens have a source

Tokens that do not go beyond the first line can be laid out on it, with a blank behind each token
and a semicolon behind each line: `exists_laid`.
-/

namespace ScriptReader

open ScriptReader.Text

/-! ## Tokens to write with -/

/-- The token begins and ends on the first line. -/
structure Token.IsDraft (t : Token) : Prop where
  isLexeme : t.IsLexeme
  line_eq : t.line = 1
  newline : '\n' ∉ t.text.toList

/-- Every token begins and ends on the first line. -/
def Drafted (ts : List Token) : Prop := ∀ t ∈ ts, t.IsDraft

theorem Drafted.nil : Drafted [] := nofun

theorem Drafted.cons {t : Token} {ts : List Token} (ht : t.IsDraft) (hts : Drafted ts) :
    Drafted (t :: ts) := List.forall_mem_cons.mpr ⟨ht, hts⟩

theorem Drafted.singleton {t : Token} (ht : t.IsDraft) : Drafted [t] := .cons ht .nil

theorem Drafted.append {as bs : List Token} (ha : Drafted as) (hb : Drafted bs) :
    Drafted (as ++ bs) := fun t h => (List.mem_append.mp h).elim (ha t) (hb t)

/-- Between brackets, behind a token. -/
theorem Drafted.bracketed {o c : Token} {ts : List Token} (ho : o.IsDraft) (hc : c.IsDraft)
    (hts : Drafted ts) : Drafted (o :: (ts ++ [c])) := .cons ho (hts.append (.singleton hc))

/-- A text that is a lexeme has a token that spells it. -/
theorem exists_spells (text : String) (kind : Kind)
    (h : piece? text.toList = some (.lexeme kind text.toList, []))
    (hnewline : '\n' ∉ text.toList) : ∃ t : Token, t.Spells text ∧ t.IsDraft :=
  ⟨⟨kind, text, 1⟩, ⟨rfl, h⟩, ⟨h, rfl, hnewline⟩⟩

theorem exists_joined (separator : String)
    (hs : piece? separator.toList = some (.lexeme .operator separator.toList, []))
    (hnewline : '\n' ∉ separator.toList) {segments : List (List Token)}
    (h : ∀ s ∈ segments, Drafted s) : ∃ ts, Joined separator segments ts ∧ Drafted ts := by
  obtain ⟨t, ht, hdraft⟩ := exists_spells _ _ hs hnewline
  induction segments with
  | nil => exact ⟨[], .nil, .nil⟩
  | cons s segments ih =>
    have hs := h s List.mem_cons_self
    obtain ⟨ts, hts, htsdraft⟩ := ih fun s hs => h s (List.mem_cons_of_mem _ hs)
    cases segments with
    | nil => exact ⟨s, .single s, hs⟩
    | cons s' segments => exact ⟨s ++ t :: ts, .cons s ht hts, hs.append (.cons hdraft htsdraft)⟩

/-! ## Identifiers -/

/-- The text is a word that is not reserved. -/
def IsIdentifier (s : String) : Prop := piece? s.toList = some (.lexeme .identifier s.toList, [])

/-- A token that is a word is an identifier. -/
theorem isIdentifier_of_isLexeme {t : Token} (h : t.IsLexeme) (hkind : t.kind = .identifier) :
    IsIdentifier t.text := by
  rwa [Token.IsLexeme, hkind] at h

instance (s : String) : Decidable (IsIdentifier s) :=
  inferInstanceAs (Decidable (piece? s.toList = some (.lexeme .identifier s.toList, [])))

/-- Only what begins with a letter is read as an identifier. -/
theorem word_of_piece? {cs text rest : List Char}
    (h : piece? cs = some (.lexeme .identifier text, rest)) :
    word cs = (.lexeme .identifier text, rest) := by
  cases cs with
  | nil => cases h
  | cons c cs =>
    cases lexemeAt_of_pieceAt? h with
    | ofString _ _ h =>
      have hkind := kind_string h
      unfold stringKind at hkind
      repeat' split at hkind
      all_goals cases hkind
    | ofNumeral _ h => cases kind_numeral h
    | ofWord _ h => exact h
    | ofOperator _ h => cases kind_operator? h

theorem IsIdentifier.isDraft {s : String} (h : IsIdentifier s) :
    Token.IsDraft ⟨.identifier, s, 1⟩ where
  isLexeme := h
  line_eq := rfl
  newline hn := by
    have hword := word_of_piece? h
    simp only [word, Prod.mk.injEq] at hword
    have hall := List.dropWhile_eq_nil_iff.mp hword.2
    exact absurd (hall '\n' hn) (by decide)

/-! ## A source -/

/-- A blank goes on with no token. -/
theorem endsBefore_blank {t : Token} (ht : t.IsLexeme) (cs : List Char) :
    t.EndsBefore (' ' :: cs) := ht.endsBefore fun c hc => .inl (by cases hc; rfl)

/-- Tokens and a semicolon, before a text that lays out the lines after them. -/
theorem exists_laid_tokens {lines : List (List Token)} {rest : List Char}
    (hrest : Laid 0 false 1 [] lines rest) {ts : List Token} (hts : Drafted ts)
    {open_ : List Bracket} (h : Closes open_ ts) :
    ∃ cs, Laid open_.length true 1 ts lines cs := by
  induction ts generalizing open_ with
  | nil =>
    cases h
    exact ⟨';' :: rest, .separator rfl hrest⟩
  | cons t ts ih =>
    obtain ⟨open', hclose, hlength⟩ := h.uncons
    obtain ⟨cs, hcs⟩ := ih (fun u hu => hts u (List.mem_cons_of_mem _ hu)) hclose
    have ht := hts t List.mem_cons_self
    have hcount : t.text.toList.count '\n' = 0 := List.count_eq_zero.mpr ht.newline
    rw [hlength] at hcs
    refine ⟨t.text.toList ++ ' ' :: cs, ?_⟩
    rw [← ht.line_eq]
    refine .token ht.isLexeme (endsBefore_blank ht.isLexeme cs) (.blank rfl ?_)
    rwa [hcount, ht.line_eq]

/-- **Lines of tokens that do not go beyond the first line have a source.** -/
theorem exists_laid {lines : List (List Token)}
    (h : ∀ ts ∈ lines, Drafted ts ∧ Nested ts ∧ ts ≠ []) :
    ∃ cs, Laid 0 false 1 [] lines cs := by
  induction lines with
  | nil => exact ⟨[], .done⟩
  | cons ts lines ih =>
    obtain ⟨rest, hrest⟩ := ih fun us hus => h us (List.mem_cons_of_mem _ hus)
    obtain ⟨hts, hn, hne⟩ := h ts List.mem_cons_self
    obtain ⟨t, ts, rfl⟩ := List.exists_cons_of_ne_nil hne
    obtain ⟨open', hclose, hlength⟩ := hn.closes.uncons
    obtain ⟨cs, hcs⟩ :=
      exists_laid_tokens hrest (fun u hu => hts u (List.mem_cons_of_mem _ hu)) hclose
    have ht := hts t List.mem_cons_self
    have hcount : t.text.toList.count '\n' = 0 := List.count_eq_zero.mpr ht.newline
    rw [hlength] at hcs
    refine ⟨t.text.toList ++ ' ' :: cs, ?_⟩
    rw [← ht.line_eq]
    refine .first ht.isLexeme (endsBefore_blank ht.isLexeme cs) (.blank rfl ?_)
    rwa [hcount, ht.line_eq]

end ScriptReader

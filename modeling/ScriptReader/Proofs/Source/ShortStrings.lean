import ScriptReader.Proofs.Source.Longest

/-!
# Proofs/Source/ShortStrings — where strings between single quotes may have line breaks

Only strings between three quotes are meant to go over several lines.  A string between single
quotes breaks off at a line break (`Quotes.IsBody.string_newline`), except that a backslash takes
the next character along, be it a line break.  So the line breaks that a scanned string has are
those behind a backslash that is not itself taken along, and at every other one the scan ends in a
flaw on the line of the opening quote (`Source.newline_of_short_string`).
-/

namespace ScriptReader

namespace Quotes.IsBody

variable {q : Quotes} (hq : q.kind ≠ .longString)

include hq

/-- **A line break in a body stands behind a backslash**, with a body before the two. -/
theorem exists_of_newline {before after : List Char} (h : q.IsBody (before ++ '\n' :: after)) :
    ∃ body, before = body ++ ['\\'] ∧ q.IsBody body := by
  generalize hcs : before ++ '\n' :: after = cs at h
  induction h generalizing before with
  | nil => exact absurd hcs (List.append_ne_nil_of_right_ne_nil _ (List.cons_ne_nil _ _))
  | escape c h ih =>
    rcases before with - | ⟨d, - | ⟨e, before⟩⟩
    · exact absurd (List.cons.inj hcs).1 (by decide)
    · obtain ⟨rfl, -⟩ := List.cons.inj hcs
      exact ⟨[], rfl, .nil⟩
    · obtain ⟨rfl, -, rfl⟩ := hcs
      obtain ⟨body, rfl, hbody⟩ := ih rfl
      exact ⟨'\\' :: c :: body, rfl, .escape c hbody⟩
  | @plain c cs hslash hmarks hline h ih =>
    rcases before with - | ⟨d, before⟩
    · exact absurd (hline (List.cons.inj hcs).1.symm) hq
    · obtain ⟨rfl, rfl⟩ := List.cons.inj hcs
      obtain ⟨body, rfl, hbody⟩ := ih rfl
      refine ⟨d :: body, rfl, .plain hslash ?_ hline hbody⟩
      rw [marks_of_short hq, List.cons_prefix_cons] at hmarks ⊢
      exact fun hmark => hmarks ⟨hmark.1, List.nil_prefix⟩

/-- What stands before a line break that is no part of the body does not begin with a quote. -/
theorem not_tripled {cs : List Char} (h : q.IsBody cs) (rest : List Char) :
    isTripled q.mark (cs ++ '\n' :: rest) = false := by
  rw [Bool.eq_false_iff, ne_eq, isTripled_iff]
  intro hprefix
  cases h with
  | nil => exact q.mark_ne_newline (List.cons_prefix_cons.mp hprefix).1
  | escape => exact q.mark_ne_backslash (List.cons_prefix_cons.mp hprefix).1
  | plain _ hmarks =>
    rw [marks_of_short hq, List.cons_prefix_cons] at hmarks
    exact hmarks ⟨(List.cons_prefix_cons.mp hprefix).1, List.nil_prefix⟩

/-- **A string between single quotes breaks off at a line break.** -/
theorem string_newline {body : List Char} (h : q.IsBody body) (rest : List Char) :
    string q.mark (body ++ '\n' :: rest) = (.brokenString (q.mark :: body), '\n' :: rest) := by
  have hbreak : StringTail.short q.mark ('\n' :: rest) = ⟨[], '\n' :: rest, false⟩ := by
    rw [StringTail.short, if_neg q.mark_ne_newline.symm, if_pos rfl]
    exact fun _ _ hc _ => absurd hc (by decide)
  have htail : stringTail q.mark (body ++ '\n' :: rest) = ⟨body, '\n' :: rest, false⟩ := by
    rw [stringTail, h.not_tripled hq, if_neg Bool.false_ne_true, h.short_prepend hq, hbreak,
      StringTail.prepend, List.append_nil]
  simp only [string, htail, Bool.false_eq_true, if_false]

end Quotes.IsBody

/-! ## Scanned strings -/

/-- A longest lexeme between single quotes. -/
theorem IsLongest.exists_short {kind : Kind} {rest cs : List Char} (h : IsLongest rest kind cs)
    (hkind : kind = .apostropheString ∨ kind = .quotedString) :
    ∃ (q : Quotes) (body : List Char), q.kind = kind ∧ q.kind ≠ .longString
      ∧ cs = q.mark :: (body ++ [q.mark]) ∧ q.IsBody body := by
  cases h with
  | @string q kind body hq hbody hlong =>
    have hshort : q.kind ≠ .longString := by
      rw [hq]
      rcases hkind with rfl | rfl <;> decide
    refine ⟨q, body, hq, hshort, ?_, hbody⟩
    rw [Quotes.marks_of_short hshort]
    rfl
  | _ => rcases hkind with h | h <;> cases h

/-- **A line break in a string between single quotes stands behind a backslash** that no other
backslash takes along. -/
theorem Token.IsLexeme.exists_of_newline {t : Token} (h : t.IsLexeme)
    (hkind : t.kind = .apostropheString ∨ t.kind = .quotedString) {before after : List Char}
    (htext : t.text.toList = before ++ '\n' :: after) :
    ∃ (q : Quotes) (body : List Char), q.kind = t.kind ∧ before = q.mark :: (body ++ ['\\'])
      ∧ q.IsBody body := by
  obtain ⟨q, body, hq, hshort, hquoted, hbody⟩ := h.isLongest.exists_short hkind
  rw [htext] at hquoted
  -- the line break is neither of the two quotes
  rcases before with - | ⟨c, before⟩
  · exact absurd (List.cons.inj hquoted).1.symm q.mark_ne_newline
  obtain rfl : c = q.mark := (List.cons.inj hquoted).1
  have hinner : before ++ '\n' :: after = body ++ [q.mark] := (List.cons.inj hquoted).2
  rcases List.eq_nil_or_concat after with rfl | ⟨after, c, rfl⟩
  · exact absurd (List.cons.inj (List.append_inj' hinner rfl).2).1.symm q.mark_ne_newline
  rw [List.concat_eq_append, ← List.cons_append, ← List.append_assoc] at hinner
  obtain ⟨rfl, -⟩ := List.append_inj' hinner rfl
  obtain ⟨as, rfl, has⟩ := hbody.exists_of_newline hshort
  exact ⟨q, as, hq, rfl, has⟩

namespace Source

variable {src : Source}

/-- **At any other line break the scan ends**: the string is unterminated, on the line of its
opening quote. -/
theorem scanFrom_newline {q : Quotes} {body rest : List Char} (hq : q.kind ≠ .longString)
    (hbody : q.IsBody body) (hrest : src.rest = q.mark :: (body ++ '\n' :: rest))
    (open_ : Brackets) (begun : Bool) :
    src.scanFrom open_ begun
      = ⟨[], src.after (q.mark :: body) ('\n' :: rest), some ⟨.unterminatedString, src.line,
          some ⟨.unknown, String.ofList (q.mark :: body), src.line⟩⟩⟩ := by
  have hpiece : piece? src.rest = some (.brokenString (q.mark :: body), '\n' :: rest) := by
    rw [hrest, q.piece?_mark, hbody.string_newline hq]
  refine scanFrom_of_stop ?_
  rw [move, hpiece]
  rfl

/-- **A string between single quotes leaves its line only behind a backslash.**  Every line break
in such a string stands behind a backslash that no other one takes along.  Wherever a scan gets to
a string that has a line break elsewhere before its closing quote, the scan ends there: the string
is unterminated, and the error is on the line of the opening quote. -/
theorem newline_of_short_string (src : Source) :
    (∀ t ∈ src.scan.tokens, t.kind = .apostropheString ∨ t.kind = .quotedString →
      ∀ before after, t.text.toList = before ++ '\n' :: after →
        ∃ (q : Quotes) (body : List Char), q.kind = t.kind
          ∧ before = q.mark :: (body ++ ['\\']) ∧ q.IsBody body)
      ∧ ∀ open_ begun mid, src.Reaches open_ begun mid →
        ∀ (q : Quotes) (body rest : List Char), q.kind ≠ .longString → q.IsBody body →
          mid.rest = q.mark :: (body ++ '\n' :: rest) →
            src.scan.flaw = some ⟨.unterminatedString, mid.line,
              some ⟨.unknown, String.ofList (q.mark :: body), mid.line⟩⟩
            ∧ src.scan.error? = some (.script .unterminatedString mid.line) := by
  refine ⟨fun t ht hkind before after htext => ?_, fun open_ begun mid hreaches q body rest hq
    hbody hrest => ?_⟩
  · exact (isLexeme_of_mem_scan ht).exists_of_newline hkind htext
  · obtain ⟨tokens, hscan⟩ := hreaches.scan_eq
    have hflaw : src.scan.flaw = some ⟨.unterminatedString, mid.line,
        some ⟨.unknown, String.ofList (q.mark :: body), mid.line⟩⟩ := by
      rw [hscan, scanFrom_newline hq hbody hrest]
    exact ⟨hflaw, by rw [Scan.error?, hflaw, Option.map_some]⟩

/-- The second line begins with a quote that is not closed on it. -/
theorem newline_of_short_string_in_brackets :
    (ofString "[\n'b\n]").scan.error? = some (.script .unterminatedString 2) := by
  have hreaches : (ofString "[\n'b\n]").Reaches [(.square, 1)] true ⟨"'b\n]".toList, 2⟩ :=
    .skip (.form .start rfl) rfl
  have hbody : Quotes.IsBody .apostrophe ['b'] := .plain (by decide) (by decide) nofun .nil
  exact ((newline_of_short_string _).2 _ _ _ hreaches .apostrophe _ [']'] nofun hbody rfl).2

/-- A string between single quotes that goes on behind a backslash at the end of its line. -/
theorem scan_short_string_over_lines :
    (ofString "'a\\\nb'").scan = ⟨[⟨.apostropheString, "'a\\\nb'", 1⟩], ⟨[], 2⟩, none⟩
      ∧ '\n' ∈ "'a\\\nb'".toList := by
  exact ⟨by decide +kernel, by decide⟩

end Source

end ScriptReader

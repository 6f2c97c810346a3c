import ScriptReader.Proofs.Literal.Encoded
import ScriptReader.Proofs.Script.RoundTrip
import ScriptReader.Proofs.Source.Moves

/-!
# Proofs/Script/Quoted — every text has a literal between quotes of every kind

`Quotes.literal` escapes the backslashes, quotes and line breaks of a text and puts it between
quotes.  As the source of a script it is one token, and the script is the text and nothing else
(`Quotes.literal_read`).
-/

namespace ScriptReader

open ScriptReader.Literal

/-! ## Sources of one token -/

/-- **A lexeme that is no bracket is scanned as one token**, and nothing is left of it. -/
theorem Source.scan_lexeme {t : Token} (ht : t.IsLexeme) (hplain : t.IsPlain) (hline : t.line = 1) :
    (ofString t.text).scan = ⟨[t], ⟨[], 1 + t.text.toList.count '\n'⟩, none⟩ := by
  have hpiece : piece? (ofString t.text).rest = some (.lexeme t.kind t.text.toList, []) := ht
  have hpass : Brackets.pass? [] (ofString t.text).line t.text.toList = some [] :=
    Brackets.pass?_plain hplain
  have hmove : (ofString t.text).move [] false
      = .form t.kind t.text.toList [] ⟨[], 1 + t.text.toList.count '\n'⟩ := by
    rw [move, hpiece]
    dsimp only
    rw [hpass]
    rfl
  have hstop : move [] true ⟨[], 1 + t.text.toList.count '\n'⟩
      = .stop ⟨[], 1 + t.text.toList.count '\n'⟩ none := rfl
  rw [scan, scanFrom_of_form hmove, scanFrom_of_stop hstop, String.ofList_toList]
  obtain ⟨kind, text, line⟩ := t
  cases hline
  rfl

/-- The script of one operand. -/
theorem Script.isWrittenAs_lexeme {t : Token} {e : Expr} (ht : t.IsLexeme) (hplain : t.IsPlain)
    (hline : t.line = 1) (he : ScriptReader.Written 0 e [t]) :
    IsWrittenAs [.expression (e.placed .value)] t.text := by
  have hlaid : Laid 0 false 1 [] [[t]] t.text.toList := by
    rw [← hline, ← List.append_nil t.text.toList]
    refine .first ht (ht.endsBefore nofun) ?_
    rw [depthAfter_of_isPlain hplain]
    exact .done
  have hbody : ∀ x ∈ [(⟨.expression (e.placed .value), [t], []⟩ : WrittenStmt)],
      x.stmt.Written x.first x.below := List.forall_mem_singleton.mpr (.onLine (.expression he))
  exact ⟨[[t]], .intro hbody, hlaid⟩

/-! ## Literals -/

/-- How a character is written so that it may stand between quotes of any kind. -/
def escape (c : Char) : List Char :=
  if c = '\\' ∨ c = '\'' ∨ c = '"' then ['\\', c] else if c = '\n' then ['\\', 'n'] else [c]

/-- The literal of a text between the quotes. -/
def Quotes.literal (q : Quotes) (s : String) : String :=
  String.ofList (q.marks ++ s.toList.flatMap escape ++ q.marks)

theorem exists_spelling_escape (q : Quotes) (c : Char) :
    ∃ w : Spelling, w.text = escape c ∧ w.char = c ∧ w.Fits q := by
  refine exists_spelling_of_escaped (fun c => c = '\\' ∨ c = '\'' ∨ c = '"') (fun c h => ?_)
    (fun c h => ?_) c
  · rcases h with rfl | rfl | rfl <;> rfl
  · refine ⟨fun hc => h (.inl hc), ?_⟩
    rintro rfl
    cases q <;> exact h (by decide)

namespace Quotes

variable (q : Quotes) (s : String)

theorem exists_quoted_literal :
    ∃ ws : List Spelling, q.literal s = quoted q ws ∧ ws.map Spelling.char = s.toList
      ∧ ∀ w ∈ ws, w.Fits q := by
  obtain ⟨ws, hspelled, hchars, hws⟩ := exists_spelled (exists_spelling_escape q) s.toList
  exact ⟨ws, by rw [literal, quoted, hspelled], hchars, hws⟩

/-- The token that the literal is. -/
def token : Token := ⟨q.kind, q.literal s, 1⟩

theorem isLexeme_token : (q.token s).IsLexeme := by
  obtain ⟨ws, htext, -, hws⟩ := q.exists_quoted_literal s
  rw [Token.IsLexeme, token, htext]
  exact piece?_spelled hws

theorem textValue_token : textValue q.kind (q.literal s) = s := by
  obtain ⟨ws, htext, hchars, -⟩ := q.exists_quoted_literal s
  rw [htext, textValue_spelled, hchars, String.ofList_toList]

/-- A literal stays on its line. -/
theorem newline_not_mem_literal : '\n' ∉ (q.literal s).toList := by
  have hmarks : '\n' ∉ q.marks := by cases q <;> decide
  have hescape : '\n' ∉ s.toList.flatMap escape := by
    rw [List.mem_flatMap]
    rintro ⟨c, -, h⟩
    exact newline_not_mem_escaped (fun c => c = '\\' ∨ c = '\'' ∨ c = '"') (by decide) c h
  rw [literal, String.toList_ofList, List.mem_append, List.mem_append]
  rintro ((h | h) | h)
  · exact hmarks h
  · exact hescape h
  · exact hmarks h

end Quotes

/-- **Every text has a literal between quotes of every kind.**  Scanning the literal yields one
statement of one token, which is all of it, and in any session the script is read as the text alone.
Beyond these literals, replacing the escapes undoes every encoding that writes each character as
itself, by its letter or by its code. -/
theorem Quotes.literal_read (q : Quotes) (s : String) :
    (Source.ofString (q.literal s)).scan = ⟨[⟨q.kind, q.literal s, 1⟩], ⟨[], 1⟩, none⟩
      ∧ (∀ session : Session,
        (session.read (q.literal s)).1 = .ok [.expression (.text s)])
      ∧ ∀ ws : List Spelling,
        resolveEscapes (ws.flatMap Spelling.text) = ws.map Spelling.char := by
  have hlexeme := q.isLexeme_token s
  have hkind : q.kind ≠ .operator ∧ q.kind ∈ [.apostropheString, .quotedString, .longString] := by
    cases q <;> decide
  have hplain : (q.token s).IsPlain := hlexeme.isPlain hkind.1
  refine ⟨?_, fun session => ?_, resolveEscapes_spelled⟩
  · have hcount : (q.literal s).toList.count '\n' = 0 :=
      List.count_eq_zero.mpr (q.newline_not_mem_literal s)
    have hscan := Source.scan_lexeme hlexeme hplain rfl
    rwa [show (q.token s).text = q.literal s from rfl, hcount] at hscan
  · have hwritten : Written 0 _ _ := .text hlexeme hkind.2
    rw [show textValue (q.token s).kind (q.token s).text = s from q.textValue_token s] at hwritten
    exact (Script.isWrittenAs_lexeme hlexeme hplain rfl hwritten).read session

end ScriptReader

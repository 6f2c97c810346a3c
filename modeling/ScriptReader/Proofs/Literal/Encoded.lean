import ScriptReader.Literal.Text
import ScriptReader.Proofs.Source.Longest

/-!
# Proofs/Literal/Encoded — whatever way a text is encoded, a literal stands for it

A character of a literal's body is written as itself, by an escape of one letter or by the two
hexadecimal digits of its code (`Literal.Spelling`), and the characters of a text may be written
each in its own way.  Replacing the escapes undoes every such encoding
(`Literal.resolveEscapes_spelled`).  Where no quote and no line break stands as itself, the encoding
between quotes is a string literal that stands for the text (`Literal.piece?_spelled`,
`Literal.textValue_spelled`).
-/

namespace ScriptReader.Literal

open ScriptReader.Text

/-! ## Spellings -/

/-- **The letters that write characters** behind a backslash, and the characters that they write. -/
theorem escaped?_eq_some_iff {e c : Char} :
    escaped? e = some c ↔ (e, c) ∈ [('\\', '\\'), ('\'', '\''), ('"', '"'), ('a', '\x07'),
      ('b', '\x08'), ('f', '\x0c'), ('n', '\n'), ('r', '\r'), ('t', '\t'), ('v', '\x0b')] := by
  unfold escaped?
  split <;> simp_all [eq_comm]

/-- **A way of writing a character** in the body of a literal. -/
inductive Spelling where
  /-- As itself. -/
  | raw (c : Char) (h : c ≠ '\\')
  /-- By a letter behind a backslash. -/
  | letter (e c : Char) (h : escaped? e = some c)
  /-- By the two hexadecimal digits of its code, in either case. -/
  | code (c a b : Char) (hlt : c.toNat < 0x100) (ha : hexValue? a = some (c.toNat / 16))
      (hb : hexValue? b = some (c.toNat % 16))

namespace Spelling

/-- The character that is written. -/
def char : Spelling → Char
  | raw c _ => c
  | letter _ c _ => c
  | code c _ _ _ _ _ => c

/-- What is written for it. -/
def text : Spelling → List Char
  | raw c _ => [c]
  | letter e _ _ => ['\\', e]
  | code _ a b _ _ _ => ['\\', 'x', a, b]

/-- What is written as itself neither ends the string nor leaves its line. -/
def Fits (q : Quotes) : Spelling → Prop
  | raw c _ => c ≠ q.mark ∧ (c = '\n' → q.kind = .longString)
  | _ => True

end Spelling

/-- The encoding of a text whose characters are written in the given ways. -/
def spelled (ws : List Spelling) : List Char := ws.flatMap Spelling.text

@[simp] theorem spelled_nil : spelled [] = [] := rfl

@[simp] theorem spelled_cons (w : Spelling) (ws : List Spelling) :
    spelled (w :: ws) = w.text ++ spelled ws := rfl

/-! ## Replacing escapes -/

theorem resolveEscapes_raw {c : Char} (h : c ≠ '\\') (rest : List Char) :
    resolveEscapes (c :: rest) = c :: resolveEscapes rest := by
  rw [resolveEscapes]
  · exact fun hc _ => h hc
  · exact fun _ _ _ hc _ => h hc
  · exact fun _ _ hc _ => h hc

theorem resolveEscapes_letter {e c : Char} (h : escaped? e = some c) (rest : List Char) :
    resolveEscapes ('\\' :: e :: rest) = c :: resolveEscapes rest := by
  rw [resolveEscapes]
  · rw [h]
  · rintro a b tail rfl
    cases h

theorem resolveEscapes_code {c a b : Char} (ha : hexValue? a = some (c.toNat / 16))
    (hb : hexValue? b = some (c.toNat % 16)) (rest : List Char) :
    resolveEscapes ('\\' :: 'x' :: a :: b :: rest) = c :: resolveEscapes rest := by
  have hcode : hexEscape? a b = some c := by
    rw [hexEscape?, ha, hb]
    change some (Char.ofNat (c.toNat / 16 * 16 + c.toNat % 16)) = some c
    rw [Nat.div_add_mod', Char.ofNat_toNat]
  rw [resolveEscapes, hcode]

theorem resolveEscapes_text (w : Spelling) (rest : List Char) :
    resolveEscapes (w.text ++ rest) = w.char :: resolveEscapes rest := by
  cases w with
  | raw c h => exact resolveEscapes_raw h rest
  | letter e c h => exact resolveEscapes_letter h rest
  | code c a b _ ha hb => exact resolveEscapes_code ha hb rest

/-- **Replacing the escapes undoes every encoding.** -/
theorem resolveEscapes_spelled (ws : List Spelling) :
    resolveEscapes (spelled ws) = ws.map Spelling.char := by
  induction ws with
  | nil => rfl
  | cons w ws ih => rw [spelled_cons, resolveEscapes_text, ih, List.map_cons]

/-! ## Bodies of literals -/

variable {q : Quotes} {ws : List Spelling}

/-- Another character than the quote does not begin the closing quotes. -/
theorem not_prefix_of_ne_mark {c : Char} (h : c ≠ q.mark) (cs : List Char) :
    ¬q.marks <+: c :: cs := by
  have hmarks : ∃ tail, q.marks = q.mark :: tail := by cases q <;> exact ⟨_, rfl⟩
  obtain ⟨tail, htail⟩ := hmarks
  rw [htail, List.cons_prefix_cons]
  exact fun hprefix => h hprefix.1.symm

/-- A hexadecimal digit is no character that means anything in a body. -/
theorem ne_of_hexValue? {d : Char} {n : Nat} (h : hexValue? d = some n) :
    d ≠ '\\' ∧ d ≠ q.mark ∧ d ≠ '\n' := by
  have hmark : hexValue? q.mark = none := by cases q <;> rfl
  refine ⟨?_, ?_, ?_⟩
  · rintro rfl
    cases h
  · rintro rfl
    cases hmark.symm.trans h
  · rintro rfl
    cases h

theorem isBody_cons_digit {d : Char} {n : Nat} (h : hexValue? d = some n) {cs : List Char}
    (hcs : q.IsBody cs) : q.IsBody (d :: cs) := by
  obtain ⟨hslash, hmark, hline⟩ := ne_of_hexValue? (q := q) h
  exact .plain hslash (not_prefix_of_ne_mark hmark _) (fun hd => absurd hd hline) hcs

/-- **An encoding that fits is the body of a string.** -/
theorem isBody_spelled (h : ∀ w ∈ ws, w.Fits q) : q.IsBody (spelled ws) := by
  induction ws with
  | nil => exact .nil
  | cons w ws ih =>
    obtain ⟨hw, hws⟩ := List.forall_mem_cons.mp h
    rw [spelled_cons]
    cases w with
    | raw c hc => exact .plain hc (not_prefix_of_ne_mark hw.1 _) hw.2 (ih hws)
    | letter e c _ => exact .escape e (ih hws)
    | code c a b _ ha hb =>
      exact .escape 'x' (isBody_cons_digit ha (isBody_cons_digit hb (ih hws)))

theorem not_tripled_spelled (h : ∀ w ∈ ws, w.Fits q) (hq : q.kind ≠ .longString) :
    ¬[q.mark, q.mark] <+: spelled ws ++ q.marks := by
  rw [Quotes.marks_of_short hq]
  cases ws with
  | nil =>
    intro hprefix
    have hle := hprefix.length_le
    simp at hle
  | cons w ws =>
    have hne : ∃ c tail, w.text = c :: tail ∧ c ≠ q.mark := by
      cases w with
      | raw c hc => exact ⟨c, _, rfl, (h _ List.mem_cons_self).1⟩
      | letter e c _ => exact ⟨'\\', _, rfl, q.mark_ne_backslash.symm⟩
      | code c a b _ ha hb => exact ⟨'\\', _, rfl, q.mark_ne_backslash.symm⟩
    obtain ⟨c, tail, htext, hc⟩ := hne
    rw [spelled_cons, htext, List.cons_append, List.cons_append, List.cons_prefix_cons]
    exact fun hprefix => hc hprefix.1.symm

/-! ## Literals -/

/-- The literal with the given encoding between its quotes. -/
def quoted (q : Quotes) (ws : List Spelling) : String :=
  String.ofList (q.marks ++ spelled ws ++ q.marks)

/-- **An encoding that fits is a string literal between its quotes.** -/
theorem piece?_spelled (h : ∀ w ∈ ws, w.Fits q) :
    piece? (quoted q ws).toList = some (.lexeme q.kind (quoted q ws).toList, []) := by
  have hlong : q.kind ≠ .longString → ¬[q.mark, q.mark] <+: spelled ws ++ q.marks ++ [] := by
    rw [List.append_nil]
    exact not_tripled_spelled h
  have hpiece := piece?_string (isBody_spelled h) hlong
  rw [quoted, String.toList_ofList]
  rwa [List.append_nil] at hpiece

theorem quoteCount_kind (q : Quotes) : quoteCount q.kind = byteCount q.marks := by
  cases q <;> rfl

/-- What stands between the quotes is the body. -/
theorem body_marks (q : Quotes) (cs : List Char) : body q.kind (q.marks ++ cs ++ q.marks) = cs := by
  have hlast : byteCount (q.marks ++ cs ++ q.marks) - quoteCount q.kind
      = byteCount q.marks + byteCount cs := by
    rw [quoteCount_kind, byteCount_append, byteCount_append, Nat.add_sub_cancel]
  rw [body, hlast, quoteCount_kind]
  exact congrArg (Option.getD · []) (slice?_append q.marks cs q.marks)

/-- **A literal stands for the text that is encoded in it.** -/
theorem textValue_spelled (q : Quotes) (ws : List Spelling) :
    textValue q.kind (quoted q ws) = String.ofList (ws.map Spelling.char) := by
  rw [textValue, quoted, String.toList_ofList, body_marks, resolveEscapes_spelled]

section Escaped

variable (p : Char → Prop) [DecidablePred p]

/-- A character may stand between quotes if it is escaped where it is a backslash, a quote or a line
break. -/
theorem exists_spelling_of_escaped (hself : ∀ c, p c → escaped? c = some c)
    (hother : ∀ c, ¬p c → c ≠ '\\' ∧ c ≠ q.mark) (c : Char) :
    ∃ w : Spelling,
      w.text = (if p c then ['\\', c] else if c = '\n' then ['\\', 'n'] else [c])
        ∧ w.char = c ∧ w.Fits q := by
  split
  · next hc => exact ⟨.letter c c (hself c hc), rfl, rfl, trivial⟩
  · next hc =>
    obtain ⟨hslash, hmark⟩ := hother c hc
    split
    · next hline =>
      subst hline
      exact ⟨.letter 'n' '\n' rfl, rfl, rfl, trivial⟩
    · next hline => exact ⟨.raw c hslash, rfl, rfl, hmark, fun h => absurd h hline⟩

/-- No line break is left then. -/
theorem newline_not_mem_escaped (hline : ¬p '\n') (c : Char) :
    '\n' ∉ (if p c then ['\\', c] else if c = '\n' then ['\\', 'n'] else [c]) := by
  intro h
  split at h
  · next hc =>
    have hnewline : '\n' = c := by simpa using h
    exact hline (hnewline ▸ hc)
  · split at h
    · exact absurd h (by decide)
    · next hc => exact hc (List.mem_singleton.mp h).symm

end Escaped

/-- Characters that are written each in a way that fits have such spellings together. -/
theorem exists_spelled {f : Char → List Char}
    (hf : ∀ c, ∃ w : Spelling, w.text = f c ∧ w.char = c ∧ w.Fits q) (cs : List Char) :
    ∃ ws : List Spelling, spelled ws = cs.flatMap f ∧ ws.map Spelling.char = cs
      ∧ ∀ w ∈ ws, w.Fits q := by
  induction cs with
  | nil => exact ⟨[], rfl, rfl, nofun⟩
  | cons c cs ih =>
    obtain ⟨w, htext, hchar, hw⟩ := hf c
    obtain ⟨ws, hspelled, hchars, hws⟩ := ih
    refine ⟨w :: ws, ?_, ?_, List.forall_mem_cons.mpr ⟨hw, hws⟩⟩
    · rw [spelled_cons, htext, hspelled, List.flatMap_cons]
    · rw [List.map_cons, hchar, hchars]

end ScriptReader.Literal

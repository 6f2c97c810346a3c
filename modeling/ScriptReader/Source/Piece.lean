import ScriptReader.Text.Character
import ScriptReader.Token

/-!
# Source/Piece — what stands at the head of a script's text

A text is read piece by piece: blanks, separators of statements, lexemes, and two kinds of broken
pieces.  `piece?` reads the first piece and yields what follows it.  By `text_append_of_piece?` the
text of the piece and what follows make up what was read from, so that nothing is lost; by
`length_lt_of_piece?` what follows is shorter.
-/

namespace ScriptReader

open ScriptReader.Text

/-! ## Strings -/

/-- The text of a string literal after its opening quotes, and what follows it. -/
structure StringTail where
  /-- Up to and including the closing quotes, if there are any. -/
  text : List Char
  rest : List Char
  closed : Bool
  deriving DecidableEq, Repr

namespace StringTail

/-- The same after further characters. -/
def prepend (cs : List Char) (t : StringTail) : StringTail := { t with text := cs ++ t.text }

@[simp] theorem text_prepend (cs : List Char) (t : StringTail) :
    (t.prepend cs).text = cs ++ t.text := rfl

@[simp] theorem rest_prepend (cs : List Char) (t : StringTail) : (t.prepend cs).rest = t.rest := rfl

/-- A string that ends at the next quote, and breaks off at the end of the line.  A backslash takes
the next character along, whatever it is. -/
def short (quote : Char) : List Char → StringTail
  | [] => ⟨[], [], false⟩
  | '\\' :: c :: cs => (short quote cs).prepend ['\\', c]
  | c :: cs =>
    if c = quote then ⟨[c], cs, true⟩
    else if c = '\n' then ⟨[], c :: cs, false⟩
    else (short quote cs).prepend [c]

/-- A string that ends at the next three quotes, on whatever line. -/
def long (quote : Char) : List Char → StringTail
  | [] => ⟨[], [], false⟩
  | '\\' :: c :: cs => (long quote cs).prepend ['\\', c]
  | c :: cs =>
    if c = quote ∧ cs.take 2 = [quote, quote] then ⟨c :: cs.take 2, cs.drop 2, true⟩
    else (long quote cs).prepend [c]

theorem text_append_short (quote : Char) (cs : List Char) :
    (short quote cs).text ++ (short quote cs).rest = cs := by
  fun_induction short quote cs with
  | case1 => rfl
  | case2 c cs ih => simp [ih]
  | case3 => rfl
  | case4 => rfl
  | case5 c cs _ _ _ ih => simp [ih]

theorem text_append_long (quote : Char) (cs : List Char) :
    (long quote cs).text ++ (long quote cs).rest = cs := by
  fun_induction long quote cs with
  | case1 => rfl
  | case2 c cs ih => simp [ih]
  | case3 c cs _ _ => simp only [List.cons_append, List.take_append_drop]
  | case4 c cs _ _ ih => simp [ih]

end StringTail

/-! ## Pieces -/

/-- What a text begins with. -/
inductive Piece where
  /-- Nothing but layout: blanks, a comment, or a line break that a backslash takes back. -/
  | blank (text : List Char)
  /-- What separates statements. -/
  | separator (mark : Char)
  | lexeme (kind : Kind) (text : List Char)
  /-- A backslash without a line break. -/
  | brokenContinuation (text : List Char)
  /-- A string without closing quotes. -/
  | brokenString (text : List Char)
  deriving DecidableEq, Repr

/-- The characters of a piece. -/
def Piece.text : Piece → List Char
  | blank text => text
  | separator mark => [mark]
  | lexeme _ text => text
  | brokenContinuation text => text
  | brokenString text => text

/-- A piece and what follows it. -/
abbrev Reading := Piece × List Char

/-- Blanks within a line. -/
def isBlank (c : Char) : Bool := c == ' ' || c == '\t' || c == '\r'

/-- The operators of two characters. -/
def doubleOperators : List (Char × Char) :=
  [('=', '='), ('!', '='), ('<', '='), ('>', '='), ('+', '='), ('-', '='), ('*', '='), ('/', '='),
    ('%', '='), (':', '=')]

/-- The operators of one character, brackets and punctuation included. -/
def singleOperators : List Char :=
  ['(', '[', '\x7b', ')', ']', '\x7d', '+', '-', '*', '/', '%', '=', '<', '>', '.', ',', ':']

/-- What follows a backslash between tokens. -/
def continuation : List Char → Reading
  | '\n' :: rest => (.blank ['\\', '\n'], rest)
  | '\r' :: '\n' :: rest => (.blank ['\\', '\r', '\n'], rest)
  | '\r' :: c :: rest => (.brokenContinuation ['\\', '\r', c], rest)
  | c :: rest => (.brokenContinuation ['\\', c], rest)
  | [] => (.brokenContinuation ['\\'], [])

/-- Do two more quotes follow the first? -/
def isTripled (quote : Char) (cs : List Char) : Bool := cs.take 2 == [quote, quote]

/-- The rest of the string that a quote begins. -/
def stringTail (quote : Char) (cs : List Char) : StringTail :=
  if isTripled quote cs then (StringTail.long quote (cs.drop 2)).prepend (cs.take 2)
  else StringTail.short quote cs

/-- The kind of string that a quote begins. -/
def stringKind (quote : Char) (cs : List Char) : Kind :=
  if isTripled quote cs then .longString
  else if quote = '"' then .quotedString else .apostropheString

/-- What begins with a quote. -/
def string (quote : Char) (cs : List Char) : Reading :=
  let tail := stringTail quote cs
  (if tail.closed then .lexeme (stringKind quote cs) (quote :: tail.text)
    else .brokenString (quote :: tail.text), tail.rest)

/-- A run of digits, and a point with the digits after it if there are any. -/
def decimal (cs : List Char) : Reading :=
  let whole := cs.takeWhile isDigit
  match cs.dropWhile isDigit with
  | '.' :: d :: rest =>
    if isDigit d then
      (.lexeme .number (whole ++ '.' :: (d :: rest).takeWhile isDigit),
        (d :: rest).dropWhile isDigit)
    else (.lexeme .number whole, '.' :: d :: rest)
  | rest => (.lexeme .number whole, rest)

/-- What begins with a digit. -/
def numeral : List Char → Reading
  | '0' :: 'x' :: cs =>
    (.lexeme .number ('0' :: 'x' :: cs.takeWhile isHexDigit), cs.dropWhile isHexDigit)
  | '0' :: 'X' :: cs =>
    (.lexeme .number ('0' :: 'X' :: cs.takeWhile isHexDigit), cs.dropWhile isHexDigit)
  | cs => decimal cs

/-- What begins with a letter. -/
def word (cs : List Char) : Reading :=
  let text := cs.takeWhile isWordPart
  (.lexeme (if isReserved (String.ofList text) then .keyword else .identifier) text,
    cs.dropWhile isWordPart)

/-- The longest operator at the head of a text. -/
def operator? (c : Char) : List Char → Option Reading
  | d :: cs =>
    if (c, d) ∈ doubleOperators then some (.lexeme .operator [c, d], cs)
    else if c ∈ singleOperators then some (.lexeme .operator [c], d :: cs)
    else none
  | [] => if c ∈ singleOperators then some (.lexeme .operator [c], []) else none

/-- The piece that begins with a character, and what follows it. -/
def pieceAt? (c : Char) (cs : List Char) : Option Reading :=
  if isBlank c then some (.blank (c :: cs.takeWhile isBlank), cs.dropWhile isBlank)
  else if c = '#' then some (.blank (c :: cs.takeWhile (· != '\n')), cs.dropWhile (· != '\n'))
  else if c = '\n' ∨ c = ';' then some (.separator c, cs)
  else if c = '\\' then some (continuation cs)
  else if c = '"' ∨ c = '\'' then some (string c cs)
  else if isDigit c then some (numeral (c :: cs))
  else if isWordStart c then some (word (c :: cs))
  else operator? c cs

/-- The first piece of a text, and what follows it; none at the end, and where no piece begins. -/
def piece? : List Char → Option Reading
  | [] => none
  | c :: cs => pieceAt? c cs

/-! ## Nothing is lost -/

theorem text_append_continuation (cs : List Char) :
    (continuation cs).1.text ++ (continuation cs).2 = '\\' :: cs := by
  fun_cases continuation cs <;> rfl

theorem text_append_stringTail (quote : Char) (cs : List Char) :
    (stringTail quote cs).text ++ (stringTail quote cs).rest = cs := by
  unfold stringTail
  split
  · rw [StringTail.text_prepend, StringTail.rest_prepend, List.append_assoc,
      StringTail.text_append_long, List.take_append_drop]
  · exact StringTail.text_append_short quote cs

theorem text_string (quote : Char) (cs : List Char) :
    (string quote cs).1.text = quote :: (stringTail quote cs).text := by
  simp only [string]
  split <;> rfl

theorem text_append_string (quote : Char) (cs : List Char) :
    (string quote cs).1.text ++ (string quote cs).2 = quote :: cs := by
  rw [text_string, List.cons_append]
  exact congrArg (quote :: ·) (text_append_stringTail quote cs)

theorem text_append_decimal (cs : List Char) :
    (decimal cs).1.text ++ (decimal cs).2 = cs := by
  have h := List.takeWhile_append_dropWhile (p := isDigit) (l := cs)
  unfold decimal
  split
  · next d rest hd =>
    rw [hd] at h
    split
    · simp only [Piece.text, List.append_assoc, List.cons_append, List.takeWhile_append_dropWhile,
        h]
    · simpa only [Piece.text] using h
  · simpa only [Piece.text] using h

theorem text_append_numeral (cs : List Char) :
    (numeral cs).1.text ++ (numeral cs).2 = cs := by
  fun_cases numeral cs
  · simp only [Piece.text, List.cons_append, List.takeWhile_append_dropWhile]
  · simp only [Piece.text, List.cons_append, List.takeWhile_append_dropWhile]
  · exact text_append_decimal _

theorem text_append_operator? {c : Char} {cs : List Char} {r : Reading}
    (h : operator? c cs = some r) : r.1.text ++ r.2 = c :: cs := by
  unfold operator? at h
  split at h <;> (repeat' split at h) <;> simp only [Option.some.injEq, reduceCtorEq] at h <;>
    subst h <;> rfl

theorem text_append_pieceAt? {c : Char} {cs : List Char} {r : Reading}
    (h : pieceAt? c cs = some r) : r.1.text ++ r.2 = c :: cs := by
  unfold pieceAt? at h
  repeat' split at h
  all_goals try (simp only [Option.some.injEq] at h; subst h)
  · simp [Piece.text]
  · simp [Piece.text]
  · rfl
  · next hc => rw [text_append_continuation, hc]
  · exact text_append_string c cs
  · exact text_append_numeral (c :: cs)
  · exact List.takeWhile_append_dropWhile
  · exact text_append_operator? h

/-- **A piece and what follows it make up the text.** -/
theorem text_append_of_piece? {cs : List Char} {r : Reading} (h : piece? cs = some r) :
    r.1.text ++ r.2 = cs := by
  cases cs with
  | nil => cases h
  | cons c cs => exact text_append_pieceAt? h

/-! ## No piece is empty -/

theorem text_decimal_ne_nil {c : Char} (h : isDigit c) (cs : List Char) :
    (decimal (c :: cs)).1.text ≠ [] := by
  unfold decimal
  rw [List.takeWhile_cons_of_pos h]
  repeat' split
  all_goals simp [Piece.text]

theorem text_pieceAt?_ne_nil {c : Char} {cs : List Char} {r : Reading}
    (h : pieceAt? c cs = some r) : r.1.text ≠ [] := by
  unfold pieceAt? at h
  repeat' split at h
  all_goals try (simp only [Option.some.injEq] at h; subst h)
  · simp [Piece.text]
  · simp [Piece.text]
  · simp [Piece.text]
  · unfold continuation; split <;> simp [Piece.text]
  · simp [text_string]
  · next hd =>
    unfold numeral
    split
    · simp [Piece.text]
    · simp [Piece.text]
    · exact text_decimal_ne_nil hd cs
  · next hw =>
    simp [word, Piece.text, List.takeWhile_cons_of_pos (isWordPart_of_isWordStart hw)]
  · unfold operator? at h
    split at h <;> (repeat' split at h) <;> simp only [Option.some.injEq, reduceCtorEq] at h <;>
      subst h <;> simp [Piece.text]

/-- **What follows a piece is shorter.** -/
theorem length_lt_of_piece? {cs : List Char} {r : Reading} (h : piece? cs = some r) :
    r.2.length < cs.length := by
  cases cs with
  | nil => cases h
  | cons c cs =>
    rw [← text_append_of_piece? h, List.length_append]
    have := List.length_pos_iff.mpr (text_pieceAt?_ne_nil h)
    omega

end ScriptReader

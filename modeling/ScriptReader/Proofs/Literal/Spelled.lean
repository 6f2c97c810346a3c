import ScriptReader.Literal.Number
import ScriptReader.Proofs.Literal.Encoded
import ScriptReader.Proofs.Source.Draft

/-!
# Proofs/Literal/Spelled — every whole number and every text has a literal

The digits of a whole number are a numeral that stands for it (`numberValue?_numeral`).  A text is
written between double quotes with its backslashes, double quotes and line breaks escaped; what the
literal stands for is the text (`textValue_literal`).  Both are lexemes.
-/

namespace ScriptReader.Literal

open ScriptReader.Text

/-! ## Numerals -/

/-- The numeral of a whole number. -/
def numeral (n : Nat) : Token := ⟨.number, n.repr, 1⟩

theorem isDigit_eq (c : Char) : isDigit c = c.isDigit := rfl

theorem isDigit_of_mem_repr {n : Nat} {c : Char} (h : c ∈ n.repr.toList) : isDigit c = true := by
  rw [Nat.toList_repr] at h
  rw [isDigit_eq]
  exact Nat.isDigit_of_mem_toDigits (by decide) (by decide) h

theorem hexValue?_of_isDigit {c : Char} (h : isDigit c = true) :
    hexValue? c = some (c.toNat - '0'.toNat) := by
  rw [isDigit, Bool.and_eq_true, decide_eq_true_eq, decide_eq_true_eq] at h
  rw [hexValue?, if_pos h]

theorem isDigitIn_of_isDigit {c : Char} (h : isDigit c = true) : isDigitIn 10 c = true := by
  rw [isDigitIn, hexValue?_of_isDigit h, Option.any_some, decide_eq_true_eq]
  rw [isDigit, Bool.and_eq_true, decide_eq_true_eq, decide_eq_true_eq] at h
  have hlast : c.toNat ≤ '9'.toNat := h.2
  have hvalues : '0'.toNat = 48 ∧ '9'.toNat = 57 := by decide
  omega

theorem digitsValue_of_isDigit {cs : List Char} (h : ∀ c ∈ cs, isDigit c = true) :
    digitsValue 10 cs = Nat.ofDigitChars 10 cs 0 := by
  have fold (init : Nat) : cs.foldl (fun n c => n * 10 + (hexValue? c).getD 0) init
      = cs.foldl (fun n c => 10 * n + (c.toNat - '0'.toNat)) init := by
    induction cs generalizing init with
    | nil => rfl
    | cons c cs ih =>
      rw [List.foldl_cons, List.foldl_cons, hexValue?_of_isDigit (h c List.mem_cons_self),
        Option.getD_some, Nat.mul_comm, ih fun c hc => h c (List.mem_cons_of_mem _ hc)]
  rw [digitsValue, Nat.ofDigitChars_eq_foldl]
  exact fold 0

theorem decimal_of_isDigit {cs : List Char} (h : ∀ c ∈ cs, isDigit c = true) :
    decimal cs = (.lexeme .number cs, []) := by
  rw [decimal, List.takeWhile_eq_self_iff.mpr h, List.dropWhile_eq_nil_iff.mpr h]

theorem not_mem_of_isDigit {cs : List Char} (h : ∀ c ∈ cs, isDigit c = true) {c : Char}
    (hc : isDigit c = false) : c ∉ cs := by
  intro hmem
  rw [h c hmem] at hc
  cases hc

/-- What begins with a digit is read as a numeral. -/
theorem piece?_cons_of_isDigit {c : Char} (hc : isDigit c = true) (cs : List Char) :
    piece? (c :: cs) = some (ScriptReader.numeral (c :: cs)) := by
  have hne {d : Char} (hd : isDigit d = false) : c ≠ d := by
    rintro rfl
    rw [hc] at hd
    cases hd
  rw [piece?, pieceAt?, if_neg, if_neg (hne rfl), if_neg, if_neg (hne rfl), if_neg, if_pos hc]
  · exact fun hq => hq.elim (hne rfl) (hne rfl)
  · exact fun hq => hq.elim (hne rfl) (hne rfl)
  · simp only [isBlank, Bool.or_eq_true, beq_iff_eq]
    exact fun hq => hq.elim (fun hq => hq.elim (hne rfl) (hne rfl)) (hne rfl)

/-- What has no `x` in it is read by its decimal digits. -/
theorem numeral_of_not_mem {cs : List Char} (hx : 'x' ∉ cs) (hX : 'X' ∉ cs) :
    ScriptReader.numeral cs = ScriptReader.decimal cs := by
  unfold ScriptReader.numeral
  split
  · exact absurd (List.mem_cons_of_mem _ List.mem_cons_self) hx
  · exact absurd (List.mem_cons_of_mem _ List.mem_cons_self) hX
  · rfl

/-- Digits are a number. -/
theorem piece?_of_isDigit {cs : List Char} (hne : cs ≠ []) (h : ∀ c ∈ cs, isDigit c = true) :
    piece? cs = some (.lexeme .number cs, []) := by
  obtain ⟨c, cs, rfl⟩ := List.exists_cons_of_ne_nil hne
  rw [piece?_cons_of_isDigit (h c List.mem_cons_self),
    numeral_of_not_mem (not_mem_of_isDigit h rfl) (not_mem_of_isDigit h rfl), decimal_of_isDigit h]

theorem isLexeme_numeral (n : Nat) : (numeral n).IsLexeme :=
  piece?_of_isDigit (by rw [numeral, Nat.toList_repr]; exact Nat.toDigits_ne_nil)
    fun _ hc => isDigit_of_mem_repr hc

theorem isDraft_numeral (n : Nat) : (numeral n).IsDraft where
  isLexeme := isLexeme_numeral n
  line_eq := rfl
  newline h := absurd (isDigit_of_mem_repr h) (by decide)

/-- What has no `x` in it is no hexadecimal numeral. -/
theorem number?_of_not_mem {cs : List Char} (hx : 'x' ∉ cs) (hX : 'X' ∉ cs) :
    number? cs = if cs.contains '.' then float? cs else integer? cs := by
  unfold number?
  split
  · exact absurd (List.mem_cons_of_mem _ List.mem_cons_self) hx
  · exact absurd (List.mem_cons_of_mem _ List.mem_cons_self) hX
  · rfl

/-- A digit is no sign. -/
theorem sign?_of_isDigit {c : Char} (hc : isDigit c = true) (cs : List Char) :
    sign? (c :: cs) = (none, c :: cs) := by
  unfold sign?
  split
  · next heq =>
    cases heq
    cases hc
  · next heq =>
    cases heq
    cases hc
  · rfl

section Digits

variable {cs : List Char} (hne : cs ≠ [])
include hne

theorem int64?_of_digits {base : Nat} (hsign : sign? cs = (none, cs))
    (h : cs.all (isDigitIn base) = true) :
    int64? base cs
      = if digitsValue base cs < 0x8000000000000000 then some (digitsValue base cs : Int)
        else none := by
  rw [int64?, hsign]
  simp only [h, hne, ne_eq, not_false_eq_true, true_and, reduceCtorEq, if_false]
  refine if_congr ?_ rfl rfl
  omega

variable (h : ∀ c ∈ cs, isDigit c = true)
include h

theorem sign?_of_digits : sign? cs = (none, cs) := by
  obtain ⟨c, cs, rfl⟩ := List.exists_cons_of_ne_nil hne
  exact sign?_of_isDigit (h c List.mem_cons_self) cs

/-- Digits that fit into 64 bits. -/
theorem int64?_of_isDigit : int64? 10 cs
    = if digitsValue 10 cs < 0x8000000000000000 then some (digitsValue 10 cs : Int) else none :=
  int64?_of_digits hne (sign?_of_digits hne h)
    (List.all_eq_true.mpr fun c hc => isDigitIn_of_isDigit (h c hc))

/-- **Digits of any length, read as a fraction without a point.** -/
theorem float?_of_isDigit : float? cs = some (.ofInt (digitsValue 10 cs)) := by
  rw [float?, sign?_of_digits hne h]
  dsimp only
  rw [List.takeWhile_eq_self_iff.mpr h, List.dropWhile_eq_nil_iff.mpr h, decimals]
  · dsimp only
    rw [if_neg fun hnil => hne hnil.1, exponent?, Option.map_some, List.append_nil,
      List.length_nil, Binary64.ofInt_natCast, if_neg (Option.some_ne_none true).symm]
    rfl
  · exact fun rest h => List.cons_ne_nil _ rest h.symm

/-- **The two ways of reading digits agree**: rounding once is the same on both. -/
theorem float?_eq_of_int64? {n : Int} (hn : int64? 10 cs = some n) :
    float? cs = some (.ofInt n) := by
  rw [int64?_of_isDigit hne h] at hn
  split at hn
  · cases hn
    exact float?_of_isDigit hne h
  · cases hn

theorem integer?_of_isDigit : integer? cs = float? cs := by
  rw [integer?]
  split
  · next n hn => exact (float?_eq_of_int64? hne h hn).symm
  · exact if_pos ⟨hne, List.all_eq_true.mpr h⟩

/-- **Digits stand for the whole number that they write**, of whatever length. -/
theorem number?_of_isDigit : number? cs = some (.ofInt (digitsValue 10 cs)) := by
  have hpoint : cs.contains '.' = false := by
    rw [Bool.eq_false_iff]
    exact fun hmem => not_mem_of_isDigit h rfl (List.contains_iff_mem.mp hmem)
  rw [number?_of_not_mem (not_mem_of_isDigit h rfl) (not_mem_of_isDigit h rfl), hpoint,
    if_neg Bool.false_ne_true, integer?_of_isDigit hne h, float?_of_isDigit hne h]

end Digits

/-- **A whole number's numeral stands for it.** -/
theorem numberValue?_numeral (n : Nat) :
    numberValue? (numeral n).text = some (.ofInt n) := by
  have hdigits : ∀ c ∈ n.repr.toList, isDigit c = true := fun c => isDigit_of_mem_repr
  have hvalue : digitsValue 10 n.repr.toList = n := by
    rw [digitsValue_of_isDigit hdigits, Nat.toList_repr, Nat.ofDigitChars_ten_toDigits]
  have hne : n.repr.toList ≠ [] := by rw [Nat.toList_repr]; exact Nat.toDigits_ne_nil
  have hnumber := number?_of_isDigit hne hdigits
  rwa [hvalue] at hnumber

/-! ## String literals -/

/-- How a character is written between double quotes. -/
def escapedChar (c : Char) : List Char :=
  if c = '\\' ∨ c = '"' then ['\\', c] else if c = '\n' then ['\\', 'n'] else [c]

/-- The literal of a text. -/
def literal (s : String) : Token :=
  ⟨.quotedString, String.ofList ('"' :: (s.toList.flatMap escapedChar ++ ['"'])), 1⟩

theorem exists_spelling (c : Char) :
    ∃ w : Spelling, w.text = escapedChar c ∧ w.char = c ∧ w.Fits .double := by
  refine exists_spelling_of_escaped (fun c => c = '\\' ∨ c = '"') (fun c h => ?_) (fun c h => ?_) c
  · rcases h with rfl | rfl <;> rfl
  · exact not_or.mp h

/-- A text's literal is an encoding of the text between double quotes. -/
theorem exists_quoted (s : String) :
    ∃ ws : List Spelling, (literal s).text = quoted .double ws ∧ ws.map Spelling.char = s.toList
      ∧ ∀ w ∈ ws, w.Fits .double := by
  obtain ⟨ws, hspelled, hchars, hws⟩ := exists_spelled exists_spelling s.toList
  exact ⟨ws, by rw [quoted, hspelled]; rfl, hchars, hws⟩

theorem isLexeme_literal (s : String) : (literal s).IsLexeme := by
  obtain ⟨ws, htext, -, hws⟩ := exists_quoted s
  rw [Token.IsLexeme, htext]
  exact piece?_spelled hws

theorem isDraft_literal (s : String) : (literal s).IsDraft where
  isLexeme := isLexeme_literal s
  line_eq := rfl
  newline h := by
    rw [literal, String.toList_ofList, List.mem_cons, List.mem_append, List.mem_flatMap] at h
    rcases h with h | ⟨c, -, h⟩ | h
    · exact absurd h (by decide)
    · exact newline_not_mem_escaped (fun c => c = '\\' ∨ c = '"') (by decide) c h
    · exact absurd h (by decide)

/-- **A text's literal stands for it.** -/
theorem textValue_literal (s : String) :
    textValue (literal s).kind (literal s).text = s := by
  obtain ⟨ws, htext, hchars, -⟩ := exists_quoted s
  have hvalue := textValue_spelled .double ws
  rwa [hchars, String.ofList_toList, ← htext] at hvalue

end ScriptReader.Literal

import ScriptReader.Proofs.Literal.Spelled
import ScriptReader.Proofs.Literal.Unsigned
import ScriptReader.Proofs.Printed.Form
import ScriptReader.Tree.Printed

/-!
# Proofs/Printed/Word — the words among printed expressions

A name is printed as it is, a constant by its keyword, and a number by digits unless it is infinite.
`Expr.ofWord` reads a word back: what begins with a digit is a number, what is not one of the three
keywords is a name.  So a printed infinity is taken for the name that it looks like.
-/

namespace ScriptReader

/-! ## Identifiers -/

/-- **An identifier is a word that does not begin with a digit.** -/
theorem IsIdentifier.exists_word {s : String} (h : IsIdentifier s) :
    ∃ c rest, s.toList = c :: rest ∧ c.isDigit = false ∧ ∀ d ∈ s.toList, Text.isWordPart d := by
  have hword := word_of_piece? h
  simp only [word, Prod.mk.injEq] at hword
  have hall := List.dropWhile_eq_nil_iff.mp hword.2
  cases hs : s.toList with
  | nil =>
    rw [IsIdentifier, hs] at h
    cases h
  | cons c rest =>
    refine ⟨c, rest, rfl, ?_, hs ▸ hall⟩
    rw [Bool.eq_false_iff]
    intro hc
    rw [IsIdentifier, hs] at h
    have hnumber : pieceAt? c [] = some (.lexeme .number [c], []) :=
      Literal.piece?_of_isDigit (List.cons_ne_nil _ _) (List.forall_mem_singleton.mpr hc)
    cases lexemeAt_of_pieceAt? h with
    | ofString _ _ h =>
      have hkind := kind_string h
      unfold stringKind at hkind
      repeat' split at hkind
      all_goals cases hkind
    | ofNumeral _ h => cases kind_numeral h
    | ofWord hwords _ =>
      rw [hwords, Option.some.injEq] at hnumber
      rcases kind_word hnumber with hkind | hkind <;> cases hkind
    | ofOperator _ h => cases kind_operator? h

/-! ## Numbers -/

namespace Binary64

open Decimal

variable {x : Binary64}

theorem nearest_of_whole? {m n : Nat} (h : whole? m = some n) : (Decimal.mk n 0).nearest = m := by
  rw [whole?] at h
  dsimp only at h
  split at h
  · next hwhole =>
    obtain ⟨hfinite, hmod, -⟩ := hwhole
    have hvalue : (Decimal.mk n 0).ratio.1 * (ratio m).2
        = (ratio m).1 * (Decimal.mk n 0).ratio.2 := by
      have hn : n = (ratio m).1 / (ratio m).2 := (Option.some.inj h).symm
      have hexact := Nat.div_mul_cancel (Nat.dvd_of_mod_eq_zero hmod)
      simp only [Decimal.ratio, Int.toNat_zero, Int.neg_zero, Nat.pow_eq, Nat.pow_zero,
        Nat.mul_one]
      rw [hn, hexact]
    rw [Decimal.nearest, nearest_congr (Decimal.ratio_pos _) (ratio_pos m) hvalue,
      nearest_ratio hfinite]
  · cases h

/-- **The digits of a finite number without a sign say which one it is.** -/
theorem nearest_plainText (hx : x.IsUnsigned) (hfinite : x.isFinite) :
    IsNumeral x.plainText.toList ∧ (ofText x.plainText.toList).nearest = x.magnitude := by
  have hlt : x.magnitude < infinity := of_decide_eq_true hfinite
  rw [plainText, hx.isNaN, hx.negative]
  simp only [Bool.false_eq_true, if_false, Bool.false_and, String.empty_append]
  cases hwhole : whole? x.magnitude with
  | some n =>
    dsimp only
    rw [Nat.toString_eq_repr, Nat.toList_repr]
    refine ⟨?_, ?_⟩
    · rw [← List.append_nil (Nat.toDigits 10 n)]
      exact .of_digits (isDigit_digits n) Nat.toDigits_ne_nil nofun
    · rw [ofText_digits (isDigit_digits n), Nat.ofDigitChars_ten_toDigits,
        nearest_of_whole? hwhole]
  | none =>
    dsimp only
    rw [if_pos hfinite]
    exact ⟨isNumeral_writtenMagnitude (.inl rfl) _, nearest_ofText (.inl rfl) hlt⟩

/-- What is not finite has no digits. -/
theorem plainText_of_not_isFinite (hx : x.IsUnsigned) (hfinite : ¬ x.isFinite) :
    x.plainText = "inf" := by
  have hwhole : whole? x.magnitude = none := by
    rw [whole?]
    dsimp only
    rw [if_neg fun h => hfinite (decide_eq_true h.1)]
  rw [plainText, hx.isNaN, hx.negative, hwhole]
  simp only [Bool.false_eq_true, if_false, Bool.false_and, if_neg hfinite]
  rfl

theorem ofMagnitude_magnitude (hx : x.IsUnsigned) (hfinite : x.isFinite) :
    ofMagnitude x.magnitude = x := by
  have hlt : x.magnitude < infinity := of_decide_eq_true hfinite
  obtain ⟨negative, magnitude, hmagnitude⟩ := x
  obtain rfl : negative = false := hx.negative
  simp only [ofMagnitude, Binary64.mk.injEq, true_and]
  exact Nat.min_eq_left hlt.le

end Binary64

/-! ## Words read back -/

/-- The expression that is printed as a word. -/
def Expr.ofWord (s : String) : Expr :=
  if s.toList.head?.any Char.isDigit then
    .constant (.number (.ofMagnitude (Decimal.ofText s.toList).nearest))
  else if s = "None" then .nothing
  else if s = "True" then .constant (.boolean true)
  else if s = "False" then .constant (.boolean false)
  else .name s .none

theorem Expr.ofWord_identifier {s : String} (h : IsIdentifier s) : ofWord s = .name s .none := by
  obtain ⟨c, rest, hs, hc, -⟩ := h.exists_word
  have hdigit : ¬ s.toList.head?.any Char.isDigit := by
    rw [hs]
    exact fun h => Bool.false_ne_true (hc.symm.trans h)
  have hne {word : String} (hword : ¬ IsIdentifier word) : s ≠ word := fun heq => hword (heq ▸ h)
  rw [ofWord, if_neg hdigit, if_neg (hne (by decide)), if_neg (hne (by decide)),
    if_neg (hne (by decide))]

theorem Expr.ofWord_plainText {x : Binary64} (hx : x.IsUnsigned) :
    ofWord x.plainText
      = if x.isFinite then .constant (.number x) else .name "inf" .none := by
  split
  · next hfinite =>
    obtain ⟨⟨c, rest, htext, hc, -⟩, hnearest⟩ := Binary64.nearest_plainText hx hfinite
    have hdigit : x.plainText.toList.head?.any Char.isDigit := by
      rw [htext]
      exact hc
    rw [ofWord, if_pos hdigit, hnearest, Binary64.ofMagnitude_magnitude hx hfinite]
  · next hfinite =>
    rw [Binary64.plainText_of_not_isFinite hx hfinite]
    exact ofWord_identifier (by decide)

/-! ## Words as forms -/

theorem isWritten_identifier {s : String} (h : IsIdentifier s) : (Form.word s).IsWritten := by
  obtain ⟨c, rest, hs, -, hall⟩ := h.exists_word
  refine .word (by rw [hs]; exact List.cons_ne_nil _ _) fun d hd => ?_
  rw [isPlain, hall d hd, Bool.true_or]

theorem isWritten_plainText {x : Binary64} (hx : x.IsUnsigned) :
    (Form.word x.plainText).IsWritten := by
  by_cases hfinite : x.isFinite
  · obtain ⟨⟨c, rest, htext, hc, hrest⟩, -⟩ := Binary64.nearest_plainText hx hfinite
    refine .word (by rw [htext]; exact List.cons_ne_nil _ _) (htext ▸ ?_)
    refine List.forall_mem_cons.mpr ⟨?_, fun d hd => ?_⟩
    · rw [isPlain, isNumeralPart_of_isDigit hc, Bool.or_true]
    · rw [isPlain, hrest d hd, Bool.or_true]
  · rw [Binary64.plainText_of_not_isFinite hx hfinite]
    exact isWritten_identifier (by decide)

end ScriptReader

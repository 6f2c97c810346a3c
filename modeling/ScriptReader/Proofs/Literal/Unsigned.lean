import ScriptReader.Literal.Number
import ScriptReader.Proofs.Source.Following
import ScriptReader.Proofs.Source.Lexeme

/-!
# Proofs/Literal/Unsigned — numerals stand for numbers without a sign

A minus sign is an operator of its own, so that no scanned numeral begins with one
(`Token.IsLexeme.head?_ne_minus`).  What such a numeral stands for is positive or zero, and a number
(`Literal.isUnsigned_number?`).
-/

namespace ScriptReader

/-- The number has no sign, and it is a number. -/
structure Binary64.IsUnsigned (x : Binary64) : Prop where
  negative : x.negative = false
  isNaN : x.isNaN = false

/-! ## Rounding -/

theorem Binary64.isUnsigned_ofMagnitude (m : Nat) : (ofMagnitude m).IsUnsigned where
  negative := rfl
  isNaN := decide_eq_false (Nat.not_lt_of_le (Nat.min_le_right m infinity))

theorem Binary64.isUnsigned_ofInt (n : Nat) : (ofInt n).IsUnsigned := by
  rw [ofInt_natCast]
  exact isUnsigned_ofMagnitude _

/-! ## Numerals -/

namespace Literal

variable {cs : List Char} {x : Binary64}

theorem sign?_ne_minus (hcs : cs.head? ≠ some '-') : (sign? cs).1 ≠ some true := by
  unfold sign?
  split
  · exact absurd rfl hcs
  · nofun
  · nofun

theorem isUnsigned_float? (hcs : cs.head? ≠ some '-') (h : float? cs = some x) :
    x.IsUnsigned := by
  have hsign := sign?_ne_minus hcs
  rw [float?] at h
  simp only [if_neg hsign] at h
  split at h
  · cases h
  · obtain ⟨e, -, rfl⟩ := Option.map_eq_some_iff.mp h
    exact Binary64.isUnsigned_ofMagnitude _

/-- Without a minus sign a whole number is not negative. -/
theorem exists_natCast_of_int64? {base : Nat} {n : Int} (hcs : cs.head? ≠ some '-')
    (h : int64? base cs = some n) : ∃ m : Nat, n = m := by
  have hsign := sign?_ne_minus hcs
  rw [int64?] at h
  simp only [if_neg hsign] at h
  split at h
  · cases h
    exact ⟨_, rfl⟩
  · cases h

theorem isUnsigned_integer? (hcs : cs.head? ≠ some '-') (h : integer? cs = some x) :
    x.IsUnsigned := by
  rw [integer?] at h
  split at h
  · next n hn =>
    obtain ⟨m, rfl⟩ := exists_natCast_of_int64? hcs hn
    cases h
    exact Binary64.isUnsigned_ofInt m
  · split at h
    · exact isUnsigned_float? hcs h
    · cases h

/-- Hexadecimal digits have no sign. -/
theorem head?_takeWhile_ne_minus : (cs.takeWhile Text.isHexDigit).head? ≠ some '-' := by
  intro h
  have hdigit : Text.isHexDigit '-' = true := List.mem_takeWhile_imp (List.mem_of_mem_head? h)
  exact absurd hdigit (by decide)

theorem isUnsigned_hexadecimal? (h : hexadecimal? cs = some x) : x.IsUnsigned := by
  rw [hexadecimal?] at h
  split at h
  · cases h
  · obtain ⟨n, hn, rfl⟩ := Option.map_eq_some_iff.mp h
    obtain ⟨m, rfl⟩ := exists_natCast_of_int64? head?_takeWhile_ne_minus hn
    exact Binary64.isUnsigned_ofInt m

/-- **What a numeral without a minus sign stands for has no sign.** -/
theorem isUnsigned_number? (hcs : cs.head? ≠ some '-') (h : number? cs = some x) :
    x.IsUnsigned := by
  unfold number? at h
  split at h
  · exact isUnsigned_hexadecimal? h
  · exact isUnsigned_hexadecimal? h
  · split at h
    · exact isUnsigned_float? hcs h
    · exact isUnsigned_integer? hcs h

end Literal

/-- **A scanned numeral does not begin with a minus sign**, which is an operator. -/
theorem Token.IsLexeme.head?_ne_minus {t : Token} (h : t.IsLexeme) (hkind : t.kind = .number) :
    t.text.toList.head? ≠ some '-' := by
  intro hminus
  obtain ⟨cs, hcs⟩ := List.head?_eq_some_iff.mp hminus
  have hoperator : operator? '-' cs = some (.lexeme t.kind t.text.toList, []) := by
    rw [IsLexeme, hcs] at h
    rw [hcs]
    exact h
  have hkind' := kind_operator? hoperator
  rw [hkind] at hkind'
  cases hkind'

/-- So what it stands for has no sign. -/
theorem Token.IsLexeme.isUnsigned_numberValue? {t : Token} {x : Binary64} (h : t.IsLexeme)
    (hkind : t.kind = .number) (hx : Literal.numberValue? t.text = some x) : x.IsUnsigned :=
  Literal.isUnsigned_number? (h.head?_ne_minus hkind) hx

end ScriptReader

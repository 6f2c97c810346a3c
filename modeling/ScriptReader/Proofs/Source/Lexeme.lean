import ScriptReader.Bracket
import ScriptReader.Proofs.Phrase.Nesting
import ScriptReader.Source.Piece

/-!
# Proofs/Source/Lexeme — a token's text decides what kind of token it is

`Token.IsLexeme` says that the token is what its own text reads as.  So a token with the text of an
operator is an operator (`Token.Spells.kind_eq`), and a word, a number or a string is no bracket
(`Token.IsLexeme.isPlain`).
-/

namespace ScriptReader

namespace Token

/-- **The token's text, read on its own, is the token.** -/
def IsLexeme (t : Token) : Prop :=
  piece? t.text.toList = some (.lexeme t.kind t.text.toList, [])

instance (t : Token) : Decidable t.IsLexeme :=
  inferInstanceAs (Decidable (piece? t.text.toList = some (.lexeme t.kind t.text.toList, [])))

/-- The token is the lexeme with the given text. -/
structure Spells (text : String) (t : Token) : Prop where
  text_eq : t.text = text
  isLexeme : t.IsLexeme

variable {t : Token} {text : String} {kind : Kind}

theorem IsLexeme.kind_eq (h : t.IsLexeme) (ht : t.text = text)
    (hkind : piece? text.toList = some (.lexeme kind text.toList, [])) : t.kind = kind := by
  rw [IsLexeme, ht, hkind] at h
  simp only [Option.some.injEq, Prod.mk.injEq, Piece.lexeme.injEq, and_true] at h
  exact h.symm

theorem Spells.kind_eq (h : t.Spells text)
    (hkind : piece? text.toList = some (.lexeme kind text.toList, [])) : t.kind = kind :=
  h.isLexeme.kind_eq h.text_eq hkind

/-- What spells no bracket is plain. -/
theorem Spells.isPlain (h : t.Spells text) (ho : Bracket.ofOpenerText? text = none)
    (hc : Bracket.ofCloserText? text = none) : t.IsPlain :=
  ⟨h.text_eq ▸ ho, h.text_eq ▸ hc⟩

/-- What is no operator has no operator's text. -/
theorem IsLexeme.text_ne (h : t.IsLexeme) (hkind : t.kind ≠ .operator)
    (htext : piece? text.toList = some (.lexeme .operator text.toList, [])) : t.text ≠ text :=
  fun ht => hkind (h.kind_eq ht htext)

theorem IsLexeme.isPlain (h : t.IsLexeme) (hkind : t.kind ≠ .operator) : t.IsPlain where
  opener := by
    rw [Option.eq_none_iff_forall_ne_some]
    intro b hb
    have ht := Bracket.eq_openerText_of_ofOpenerText? hb
    exact h.text_ne hkind (by cases b <;> rfl) ht
  closer := by
    rw [Option.eq_none_iff_forall_ne_some]
    intro b hb
    have ht := Bracket.eq_closerText_of_ofCloserText? hb
    exact h.text_ne hkind (by cases b <;> rfl) ht

end Token

end ScriptReader

import Mathlib.Algebra.Group.Nat.Defs
import ScriptReader.Literal.Number
import ScriptReader.Proofs.Text.Codes
import ScriptReader.Text.Quoted

/-!
# Proofs/Text/Quoted — a text between double quotes is known from how it is written

Every written character can be taken off a text (`Text.takeWritten`), a code point by reading its
hexadecimal digits up to the brace behind them; and none begins like the quote that ends the text.
-/

namespace ScriptReader

/-! ## Hexadecimal digits -/

theorem isHexDigit_of_mem_toDigits {n : Nat} {c : Char} (h : c ∈ Nat.toDigits 16 n) :
    Text.isHexDigit c := by
  have hlast {k : Nat} (hk : k < 16) : Text.isHexDigit k.digitChar := by
    rw [Text.isHexDigit, Text.hexValue?_digitChar k hk]
    rfl
  induction n using Nat.strongRecOn with
  | ind n ih =>
    rw [Nat.toDigits_eq_if (by decide)] at h
    split at h
    · next hn =>
      rw [List.mem_singleton.mp h]
      exact hlast hn
    · rcases List.mem_append.mp h with h | h
      · exact ih (n / 16) (by omega) h
      · rw [List.mem_singleton.mp h]
        exact hlast (Nat.mod_lt _ (by decide))

/-- The digits of a number are read back as the number. -/
theorem Literal.digitsValue_toDigits (n : Nat) : digitsValue 16 (Nat.toDigits 16 n) = n := by
  induction n using Nat.strongRecOn with
  | ind n ih =>
    rw [Nat.toDigits_eq_if (by decide)]
    split
    · next hn => simp [digitsValue, Text.hexValue?_digitChar n hn]
    · have hrest := ih (n / 16) (by omega)
      rw [digitsValue] at hrest
      rw [digitsValue, List.foldl_append, hrest, List.foldl_cons, List.foldl_nil,
        Text.hexValue?_digitChar _ (Nat.mod_lt _ (by decide)), Option.getD_some]
      exact Nat.div_add_mod' n 16

/-! ## Written characters -/

namespace Text

/-- Takes a written character off a text. -/
def takeWritten : List Char → Option (Char × List Char)
  | '\\' :: 'u' :: '\x7b' :: r =>
    some (Char.ofNat (Literal.digitsValue 16 (r.takeWhile isHexDigit)),
      (r.dropWhile isHexDigit).drop 1)
  | '\\' :: '0' :: r => some ('\x00', r)
  | '\\' :: 't' :: r => some ('\t', r)
  | '\\' :: 'r' :: r => some ('\r', r)
  | '\\' :: 'n' :: r => some ('\n', r)
  | '\\' :: c :: r => some (c, r)
  | c :: r => some (c, r)
  | [] => none

theorem takeWritten_codePointEscape (c : Char) (r : List Char) :
    takeWritten (codePointEscape c ++ r) = some (c, r) := by
  have hdigits : ∀ d ∈ Nat.toDigits 16 c.toNat, isHexDigit d :=
    fun d hd => isHexDigit_of_mem_toDigits hd
  have hbrace : ¬ isHexDigit '\x7d' := by decide
  rw [codePointEscape]
  simp only [List.cons_append, List.nil_append, List.append_assoc, takeWritten,
    List.takeWhile_append_of_pos hdigits, List.dropWhile_append_of_pos hdigits,
    List.takeWhile_cons_of_neg hbrace, List.dropWhile_cons_of_neg hbrace, List.append_nil,
    Literal.digitsValue_toDigits, Char.ofNat_toNat]
  rfl

/-- **A written character is taken off as it was.** -/
theorem takeWritten_writtenChar (c : Char) (r : List Char) :
    takeWritten (writtenChar c ++ r) = some (c, r) := by
  unfold writtenChar
  split
  · next h => rw [h]; rfl
  split
  · next h => rw [h]; rfl
  split
  · next h => rw [h]; rfl
  split
  · next h => rw [h]; rfl
  split
  · next h => rcases h with rfl | rfl <;> rfl
  split
  · -- What is not escaped is no backslash.
    rw [List.singleton_append, takeWritten.eq_def]
    split <;> simp_all
  · exact takeWritten_codePointEscape c r

theorem head?_writtenChar_ne_quote (c : Char) (r : List Char) :
    (writtenChar c ++ r).head? ≠ some '"' := by
  unfold writtenChar codePointEscape
  repeat' split
  all_goals intro h; cases h
  next hquote _ => exact hquote (.inr rfl)

/-- **A text between double quotes is known from how it is written**, and so is where it ends. -/
theorem eq_of_quoted_append_eq {s s' : String} {r r' : List Char}
    (h : (quoted s).toList ++ r = (quoted s').toList ++ r') : s = s' ∧ r = r' := by
  simp only [quoted, String.toList_ofList, List.append_assoc, List.cons_append, List.nil_append,
    List.cons.injEq, true_and] at h
  obtain ⟨hs, hr⟩ := eq_of_flatMap_append_eq (fun _ => True) (·.head? = some '"')
    (fun c _ c' _ _ _ _ _ => eq_of_reads takeWritten_writtenChar) (fun _ _ => trivial)
    (fun _ _ => trivial) (fun c _ => head?_writtenChar_ne_quote c) rfl rfl h
  exact ⟨String.toList_inj.mp hs, (List.cons.inj hr).2⟩

end Text

end ScriptReader

import ScriptReader.Proofs.Literal.Valued
import ScriptReader.Proofs.Printed.Word
import ScriptReader.Proofs.Script.Quoted

/-!
# Proofs/Printed/Numeral — printed numbers are read back exactly

A finite number without a sign is printed in decimal digits, either as a whole number or with a
point between digits (`Literal.IsDecimal`).  Numerals of this form never are hexadecimal or too
long, and what they stand for is rounded once, however many digits they have
(`Literal.IsDecimal.number?`).  So the printed form is one numeral and stands for the number itself
(`Binary64.numberValue?_printed`).
-/

namespace ScriptReader

open ScriptReader.Text

namespace Literal

/-! ## Decimal numerals -/

/-- **Decimal digits**, with at most one point, which stands between digits. -/
inductive IsDecimal : List Char → Prop
  | whole {ds : List Char} (hne : ds ≠ []) (hds : ∀ d ∈ ds, isDigit d = true) : IsDecimal ds
  | fraction {ds es : List Char} (hne : ds ≠ []) (hds : ∀ d ∈ ds, isDigit d = true)
      (hne' : es ≠ []) (hes : ∀ d ∈ es, isDigit d = true) : IsDecimal (ds ++ '.' :: es)

theorem decimal_fraction {ds es : List Char} (hds : ∀ d ∈ ds, isDigit d = true) (hne : es ≠ [])
    (hes : ∀ d ∈ es, isDigit d = true) :
    decimal (ds ++ '.' :: es) = (.lexeme .number (ds ++ '.' :: es), []) := by
  obtain ⟨e, es, rfl⟩ := List.exists_cons_of_ne_nil hne
  have hpoint : ∀ c ∈ ('.' :: e :: es).head?, isDigit c = false := by
    intro c hc
    cases hc
    rfl
  rw [decimal, takeWhile_append_of_boundary hds hpoint, dropWhile_append_of_boundary hds hpoint]
  refine (if_pos (hes e List.mem_cons_self)).trans ?_
  rw [List.takeWhile_eq_self_iff.mpr hes, List.dropWhile_eq_nil_iff.mpr hes]

namespace IsDecimal

variable {cs : List Char} (h : IsDecimal cs)

include h

theorem exists_cons : ∃ c rest, cs = c :: rest ∧ isDigit c = true := by
  cases h with
  | whole hne hds =>
    obtain ⟨c, rest, rfl⟩ := List.exists_cons_of_ne_nil hne
    exact ⟨c, rest, rfl, hds c List.mem_cons_self⟩
  | @fraction ds es hne hds =>
    obtain ⟨c, rest, rfl⟩ := List.exists_cons_of_ne_nil hne
    exact ⟨c, rest ++ '.' :: es, rfl, hds c List.mem_cons_self⟩

/-- Nothing but digits and points. -/
theorem not_mem {c : Char} (hc : isDigit c = false) (hpoint : c ≠ '.') : c ∉ cs := by
  cases h with
  | whole hne hds => exact not_mem_of_isDigit hds hc
  | fraction hne hds hne' hes =>
    rw [List.mem_append, List.mem_cons]
    rintro (h | h | h)
    · exact not_mem_of_isDigit hds hc h
    · exact hpoint h
    · exact not_mem_of_isDigit hes hc h

/-- **Decimal digits are read as one numeral.** -/
theorem piece? : piece? cs = some (.lexeme .number cs, []) := by
  have hnumeral : ScriptReader.numeral cs = decimal cs :=
    numeral_of_not_mem (h.not_mem rfl (by decide)) (h.not_mem rfl (by decide))
  obtain ⟨c, rest, hcs, hc⟩ := h.exists_cons
  rw [hcs, piece?_cons_of_isDigit hc, ← hcs, hnumeral]
  cases h with
  | whole hne hds => rw [decimal_of_isDigit hds]
  | fraction hne hds hne' hes => rw [decimal_fraction hds hne' hes]

/-- **Decimal digits stand for the nearest number to the decimal that they write.** -/
theorem number? : number? cs = some (Decimal.ofText cs).toBinary64 := by
  cases h with
  | whole hne hds =>
    rw [number?_of_isDigit hne hds, digitsValue_of_isDigit hds, Binary64.ofInt_natCast,
      Decimal.ofText_digits hds]
  | @fraction ds es hne hds hne' hes =>
    have hall : ∀ d ∈ ds ++ es, isDigit d = true := List.forall_mem_append.mpr ⟨hds, hes⟩
    rw [number?_fraction hne hds hes, ← digitsValue_eq, digitsValue_of_isDigit hall,
      Decimal.ofText_point hds hes]

end IsDecimal

end Literal

/-! ## Printed numbers -/

open Literal

theorem Decimal.isDecimal_positional (d : Decimal) : IsDecimal (d.positional "").toList := by
  obtain ⟨n, e⟩ := d
  rw [positional]
  dsimp only
  split
  · rw [String.append_empty, String.toList_ofList]
    refine .whole ?_ (isDigit_append (isDigit_digits n) (isDigit_zeros _))
    exact List.append_ne_nil_of_left_ne_nil Nat.toDigits_ne_nil _
  · next he =>
    have hpadded (k : Nat) : ∀ c ∈ List.replicate k '0' ++ Nat.toDigits 10 n, c.isDigit :=
      isDigit_append (isDigit_zeros k) (isDigit_digits n)
    rw [String.toList_ofList]
    -- there are more digits than decimal places, and at least one place
    refine .fraction (List.ne_nil_of_length_pos ?_)
      (fun c hc => hpadded _ c (List.mem_of_mem_take hc)) (List.ne_nil_of_length_pos ?_)
      (fun c hc => hpadded _ c (List.mem_of_mem_drop hc))
    · rw [List.length_take, List.length_append, List.length_replicate]
      omega
    · rw [List.length_drop, List.length_append, List.length_replicate]
      omega

namespace Binary64

variable {x : Binary64}

theorem isDecimal_plainText (hx : x.IsUnsigned) (hfinite : x.isFinite) :
    IsDecimal x.plainText.toList := by
  rw [plainText, hx.isNaN, hx.negative]
  simp only [Bool.false_eq_true, if_false, Bool.false_and, String.empty_append]
  cases whole? x.magnitude with
  | some n =>
    dsimp only
    rw [Nat.toString_eq_repr, Nat.toList_repr]
    exact .whole Nat.toDigits_ne_nil (Decimal.isDigit_digits n)
  | none =>
    dsimp only
    rw [if_pos hfinite, writtenMagnitude]
    split
    · exact .whole (List.cons_ne_nil _ _) (List.forall_mem_singleton.mpr rfl)
    · exact Decimal.isDecimal_positional _

theorem isUnsigned_of_isFinite (hpositive : x.negative = false) (hfinite : x.isFinite) :
    x.IsUnsigned where
  negative := hpositive
  isNaN := decide_eq_false (Nat.lt_asymm (of_decide_eq_true hfinite))

/-- **Printed numbers are read back exactly.**  Every finite number without a sign, of whatever
magnitude, is printed in decimal digits with at most one point between them; they are scanned as one
numeral, and the numeral stands for the number, bit for bit. -/
theorem numberValue?_printed (hpositive : x.negative = false) (hfinite : x.isFinite) :
    IsDecimal (Constant.number x).printed.toList
      ∧ (Source.ofString (Constant.number x).printed).scan
        = ⟨[⟨.number, (Constant.number x).printed, 1⟩], ⟨[], 1⟩, none⟩
      ∧ numberValue? (Constant.number x).printed = some x := by
  have hx := isUnsigned_of_isFinite hpositive hfinite
  have hdecimal : IsDecimal (Constant.number x).printed.toList := isDecimal_plainText hx hfinite
  have hlexeme : Token.IsLexeme ⟨.number, (Constant.number x).printed, 1⟩ := hdecimal.piece?
  refine ⟨hdecimal, ?_, ?_⟩
  · have hscan := Source.scan_lexeme hlexeme (hlexeme.isPlain nofun) rfl
    have hline : (Constant.number x).printed.toList.count '\n' = 0 :=
      List.count_eq_zero.mpr (hdecimal.not_mem rfl (by decide))
    rwa [hline] at hscan
  · have hnearest : (Decimal.ofText (Constant.number x).printed.toList).toBinary64 = x := by
      rw [Decimal.toBinary64, Constant.printed, (nearest_plainText hx hfinite).2,
        ofMagnitude_magnitude hx hfinite]
    rw [numberValue?, hdecimal.number?, hnearest]

/-- `2 ^ 63` is printed by its shortest digits, and is read back as itself. -/
theorem numberValue?_printed_two_pow :
    (Constant.number (.ofBits 0x43E0000000000000)).printed = "9223372036854776000"
      ∧ numberValue? "9223372036854776000" = some (.ofBits 0x43E0000000000000) := by
  have hprinted : (Constant.number (.ofBits 0x43E0000000000000)).printed = "9223372036854776000" :=
    by decide +kernel
  have hread := (numberValue?_printed (x := .ofBits 0x43E0000000000000) (by decide) (by decide)).2.2
  rw [hprinted] at hread
  exact ⟨hprinted, hread⟩

end Binary64

end ScriptReader

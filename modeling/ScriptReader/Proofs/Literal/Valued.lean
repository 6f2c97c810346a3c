import Mathlib.Data.List.Induction
import Mathlib.Data.Nat.Digits.Defs
import ScriptReader.Proofs.Expr.Operands
import ScriptReader.Proofs.Expr.Rules
import ScriptReader.Proofs.Literal.Spelled
import ScriptReader.Proofs.Number.Closest
import ScriptReader.Proofs.Script.Sessions
import ScriptReader.Proofs.Source.Longest

/-!
# Proofs/Literal/Valued — the numbers that scanned numerals stand for

`Literal.Writes` says which quotient a numeral writes, by the place values of its digits.  Scanned
numerals write one unless no digit follows their `0x` (`Token.IsLexeme.exists_writes`).  What a
numeral stands for is the nearest number to the quotient, with one exception: a hexadecimal numeral
that takes 64 bits or more stands for nothing, and reading it fails
(`Source.numberValue?_of_mem_scan`).
-/

namespace ScriptReader

open ScriptReader.Text

namespace Binary64

/-- **The number is the nearest to a quotient**, which has no sign. -/
structure IsRounded (num den : Nat) (x : Binary64) : Prop where
  negative : x.negative = false
  isNearest : IsNearest num den x.magnitude

theorem isRounded_ofMagnitude_nearest (num : Nat) {den : Nat} (hden : 0 < den) :
    IsRounded num den (ofMagnitude (nearest num den)) := by
  have hnearest := isNearest_nearest num hden
  have hmagnitude : (ofMagnitude (nearest num den)).magnitude = nearest num den :=
    Nat.min_eq_left hnearest.le_infinity
  refine ⟨rfl, ?_⟩
  rw [hmagnitude]
  exact hnearest

/-- A whole number is rounded once, however long it is. -/
theorem isRounded_ofInt (n : Nat) : IsRounded n 1 (ofInt n) := by
  have hratio : (Decimal.ratio ⟨n, 0⟩) = (n, 1) := by
    rw [Decimal.ratio]
    exact Prod.ext (Nat.mul_one n) rfl
  rw [ofInt_natCast, Decimal.toBinary64, Decimal.nearest, hratio]
  exact isRounded_ofMagnitude_nearest n Nat.one_pos

/-- So is a decimal with its decimal places. -/
theorem isRounded_toBinary64 (n k : Nat) :
    IsRounded n (10 ^ k) (Decimal.toBinary64 ⟨n, -(k : Int)⟩) := by
  have hratio : (Decimal.ratio ⟨n, -(k : Int)⟩) = (n, 10 ^ k) := by
    have hup : (-(k : Int)).toNat = 0 := by omega
    have hdown : (-(-(k : Int))).toNat = k := by omega
    rw [Decimal.ratio]
    dsimp only
    rw [hup, hdown]
    exact Prod.ext (Nat.mul_one n) rfl
  rw [Decimal.toBinary64, Decimal.nearest, hratio]
  exact isRounded_ofMagnitude_nearest n (Nat.pow_pos (by decide))

end Binary64

namespace Literal

/-! ## The values of digits -/

/-- The number that digits write in a base, by their place values: the last digit counts ones. -/
def placeValue (base : Nat) (ds : List Char) : Nat :=
  Nat.ofDigits base (ds.reverse.map fun d => (hexValue? d).getD 0)

theorem digitsValue_eq (base : Nat) (ds : List Char) :
    digitsValue base ds = placeValue base ds := by
  induction ds using List.reverseRecOn with
  | nil => rfl
  | append_singleton ds d ih =>
    rw [placeValue, List.reverse_append, List.reverse_singleton, List.singleton_append,
      List.map_cons, Nat.ofDigits_cons, ← placeValue, ← ih, digitsValue, List.foldl_append,
      List.foldl_cons, List.foldl_nil, ← digitsValue, Nat.mul_comm, Nat.add_comm]

/-- **The quotient that a numeral writes**: the whole number of its digits, over ten to the number
of decimal places. -/
inductive Writes : List Char → Nat → Nat → Prop
  | hexadecimal {x : Char} {ds : List Char} (hx : x = 'x' ∨ x = 'X') (hne : ds ≠ [])
      (hds : ∀ d ∈ ds, isHexDigit d = true) : Writes ('0' :: x :: ds) (placeValue 16 ds) 1
  | whole {ds : List Char} (hne : ds ≠ []) (hds : ∀ d ∈ ds, isDigit d = true) :
      Writes ds (placeValue 10 ds) 1
  | fraction {ds es : List Char} (hne : ds ≠ []) (hds : ∀ d ∈ ds, isDigit d = true)
      (hes : ∀ d ∈ es, isDigit d = true) :
      Writes (ds ++ '.' :: es) (placeValue 10 (ds ++ es)) (10 ^ es.length)

/-- The numeral is hexadecimal. -/
def IsHexadecimal (cs : List Char) : Prop := ∃ ds, cs = '0' :: 'x' :: ds ∨ cs = '0' :: 'X' :: ds

/-! ## Reading numerals -/

theorem isDigitIn_of_isHexDigit {c : Char} (h : isHexDigit c = true) : isDigitIn 16 c = true := by
  obtain ⟨n, hn⟩ := Option.isSome_iff_exists.mp h
  have hvalues : '0'.toNat = 48 ∧ '9'.toNat = 57 ∧ 'a'.toNat = 97 ∧ 'f'.toNat = 102
    ∧ 'A'.toNat = 65 ∧ 'F'.toNat = 70 := by decide
  rw [isDigitIn, hn, Option.any_some, decide_eq_true_eq]
  unfold hexValue? at hn
  split at hn
  · next hc =>
    have hlast : c.toNat ≤ '9'.toNat := hc.2
    cases hn
    omega
  split at hn
  · next hc =>
    have hlast : c.toNat ≤ 'f'.toNat := hc.2
    cases hn
    omega
  split at hn
  · next hc =>
    have hlast : c.toNat ≤ 'F'.toNat := hc.2
    cases hn
    omega
  · cases hn

/-- Hexadecimal digits have no sign. -/
theorem sign?_of_isHexDigit {ds : List Char} (hds : ∀ d ∈ ds, isHexDigit d = true) :
    sign? ds = (none, ds) := by
  unfold sign?
  split
  · exact absurd (hds '-' List.mem_cons_self) (by decide)
  · exact absurd (hds '+' List.mem_cons_self) (by decide)
  · rfl

theorem hexadecimal?_of_isHexDigit {ds : List Char} (hne : ds ≠ [])
    (hds : ∀ d ∈ ds, isHexDigit d = true) :
    hexadecimal? ds = if 2 ^ 63 ≤ placeValue 16 ds then none
      else some (.ofInt (placeValue 16 ds)) := by
  have hall : ds.all (isDigitIn 16) = true :=
    List.all_eq_true.mpr fun d hd => isDigitIn_of_isHexDigit (hds d hd)
  rw [hexadecimal?, List.takeWhile_eq_self_iff.mpr hds, if_neg hne,
    int64?_of_digits hne (sign?_of_isHexDigit hds) hall, digitsValue_eq]
  split
  · next h => rw [if_neg (by omega), Option.map_some]
  · next h => rw [if_pos (by omega), Option.map_none]

theorem number?_fraction {ds es : List Char} (hne : ds ≠ []) (hds : ∀ d ∈ ds, isDigit d = true)
    (hes : ∀ d ∈ es, isDigit d = true) :
    number? (ds ++ '.' :: es)
      = some (Decimal.toBinary64 ⟨placeValue 10 (ds ++ es), -(es.length : Int)⟩) := by
  have hmem {c : Char} (hc : isDigit c = false) (hpoint : c ≠ '.') : c ∉ ds ++ '.' :: es := by
    rw [List.mem_append, List.mem_cons]
    rintro (h | h | h)
    · exact not_mem_of_isDigit hds hc h
    · exact hpoint h
    · exact not_mem_of_isDigit hes hc h
  have hcontains : (ds ++ '.' :: es).contains '.' = true :=
    List.contains_iff_mem.mpr (List.mem_append_right _ List.mem_cons_self)
  have hsign : sign? (ds ++ '.' :: es) = (none, ds ++ '.' :: es) := by
    obtain ⟨d, ds, rfl⟩ := List.exists_cons_of_ne_nil hne
    exact sign?_of_isDigit (hds d List.mem_cons_self) _
  have hstop : ∀ c ∈ ('.' :: es).head?, isDigit c = false := by
    intro c hc
    cases hc
    rfl
  rw [number?_of_not_mem (hmem rfl (by decide)) (hmem rfl (by decide)), hcontains, if_pos rfl,
    float?, hsign]
  simp only [takeWhile_append_of_boundary hds hstop, dropWhile_append_of_boundary hds hstop,
    decimals]
  rw [List.takeWhile_eq_self_iff.mpr hes, List.dropWhile_eq_nil_iff.mpr hes,
    if_neg fun h => hne h.1, digitsValue_eq, exponent?, Option.map_some, Int.zero_sub]
  rfl

theorem isHexadecimal_cons {x : Char} (hx : x = 'x' ∨ x = 'X') (ds : List Char) :
    IsHexadecimal ('0' :: x :: ds) := by
  rcases hx with rfl | rfl
  · exact ⟨ds, .inl rfl⟩
  · exact ⟨ds, .inr rfl⟩

theorem IsHexadecimal.mem {cs : List Char} (h : IsHexadecimal cs) : 'x' ∈ cs ∨ 'X' ∈ cs := by
  obtain ⟨ds, rfl | rfl⟩ := h
  · exact .inl (List.mem_cons_of_mem _ List.mem_cons_self)
  · exact .inr (List.mem_cons_of_mem _ List.mem_cons_self)

variable {cs : List Char} {num den : Nat}

/-- A numeral of decimal digits is not hexadecimal. -/
theorem not_isHexadecimal (h : ∀ c ∈ cs, isDigit c = true ∨ c = '.') : ¬IsHexadecimal cs := by
  intro hhex
  rcases hhex.mem with hx | hX
  · exact absurd (h 'x' hx) (by decide)
  · exact absurd (h 'X' hX) (by decide)

/-- **A numeral stands for the nearest number to what it writes**, unless it is hexadecimal and too
long. -/
theorem Writes.number? (h : Writes cs num den) :
    (IsHexadecimal cs ∧ 2 ^ 63 ≤ num → number? cs = none)
      ∧ (¬(IsHexadecimal cs ∧ 2 ^ 63 ≤ num) →
        ∃ x, number? cs = some x ∧ x.IsRounded num den) := by
  cases h with
  | @hexadecimal x ds hx hne hds =>
    have hnumber : Literal.number? ('0' :: x :: ds) = hexadecimal? ds := by
      rcases hx with rfl | rfl <;> rfl
    rw [hnumber, hexadecimal?_of_isHexDigit hne hds]
    refine ⟨fun h => if_pos h.2, fun h => ?_⟩
    rw [if_neg fun hle => h ⟨isHexadecimal_cons hx ds, hle⟩]
    exact ⟨_, rfl, Binary64.isRounded_ofInt _⟩
  | whole hne hds =>
    have hdecimal := not_isHexadecimal fun c hc => .inl (hds c hc)
    rw [number?_of_isDigit hne hds, digitsValue_eq]
    exact ⟨fun h => absurd h.1 hdecimal, fun _ => ⟨_, rfl, Binary64.isRounded_ofInt _⟩⟩
  | @fraction ds es hne hds hes =>
    have hdecimal : ¬IsHexadecimal (ds ++ '.' :: es) := by
      refine not_isHexadecimal fun c hc => ?_
      rcases List.mem_append.mp hc with hc | hc
      · exact .inl (hds c hc)
      · exact (List.mem_cons.mp hc).elim .inr fun hc => .inl (hes c hc)
    rw [number?_fraction hne hds hes]
    exact ⟨fun h => absurd h.1 hdecimal, fun _ => ⟨_, rfl, Binary64.isRounded_toBinary64 _ _⟩⟩

end Literal

/-! ## Scanned numerals -/

theorem IsLongest.isLongestNumeral {rest cs : List Char} (h : IsLongest rest .number cs) :
    IsLongestNumeral rest cs := by
  cases h with
  | number h => exact h
  | string q hq => cases q <;> cases hq

namespace Token.IsLexeme

open Literal

variable {t : Token} (h : t.IsLexeme) (hkind : t.kind = .number)

include h hkind

/-- **A scanned numeral writes a quotient**, unless it is a hexadecimal prefix without digits. -/
theorem exists_writes (hx : t.text ≠ "0x") (hX : t.text ≠ "0X") :
    ∃ num den, Writes t.text.toList num den := by
  have hlongest := h.isLongest
  rw [hkind] at hlongest
  have htext {s : String} (hs : t.text ≠ s) : t.text.toList ≠ s.toList :=
    fun heq => hs (String.toList_injective heq)
  generalize t.text.toList = cs at hlongest htext
  cases hlongest.isLongestNumeral with
  | @hexadecimal x ds hx' hds =>
    refine ⟨_, _, .hexadecimal hx' ?_ hds⟩
    rintro rfl
    rcases hx' with rfl | rfl
    · exact htext hx rfl
    · exact htext hX rfl
  | whole hne hds => exact ⟨_, _, .whole hne hds⟩
  | fraction hne hds _ hes => exact ⟨_, _, .fraction hne hds hes⟩

/-- A numeral alone is read as the number that it stands for, and refused if there is none. -/
theorem read_numeral {p : Phrase} (hp : p.tokens = [t]) (lookup : Lookup) :
    Expr.read p lookup = match numberValue? t.text with
      | some x => .ok (.constant (.number x))
      | none => p.refuse 0 (.malformedNumber (.token t)) := by
  have hplain := h.isPlain (by rw [hkind]; decide)
  have hranked : t.ranked? = none :=
    Token.IsLexeme.ranked?_eq_none (by rw [hkind]; decide) (by rw [hkind]; decide)
  have hfound : p.found 0 = .token t := by
    rw [Phrase.found, hp]
    rfl
  rw [Expr.read_token hp hplain hranked]
  cases hvalue : numberValue? t.text with
  | none => simp only [Expr.ofToken, hkind, hvalue, hfound]
  | some x => simp only [Expr.ofToken, hkind, hvalue]

end Token.IsLexeme

/-- **What scanned numerals stand for.**  Whatever numeral is scanned, of any length, a bare `0x`
apart, writes a quotient; what it stands for is the number nearest to it, which is what it is read
as.  Only hexadecimal numerals of 64 bits and more stand for nothing, and reading them fails. -/
theorem Source.numberValue?_of_mem_scan {src : Source} {t : Token} (ht : t ∈ src.scan.tokens)
    (hkind : t.kind = .number) (hx : t.text ≠ "0x") (hX : t.text ≠ "0X") :
    ∃ num den, Literal.Writes t.text.toList num den
      ∧ (Literal.IsHexadecimal t.text.toList ∧ 2 ^ 63 ≤ num →
        Literal.numberValue? t.text = none
          ∧ ∀ (p : Phrase) (lookup : Lookup), p.tokens = [t] →
            Expr.read p lookup = p.refuse 0 (.malformedNumber (.token t)))
      ∧ (¬(Literal.IsHexadecimal t.text.toList ∧ 2 ^ 63 ≤ num) →
        ∃ x, Literal.numberValue? t.text = some x ∧ x.IsRounded num den
          ∧ ∀ (p : Phrase) (lookup : Lookup), p.tokens = [t] →
            Expr.read p lookup = .ok (.constant (.number x))) := by
  have hlexeme := isLexeme_of_mem_scan ht
  obtain ⟨num, den, hwrites⟩ := hlexeme.exists_writes hkind hx hX
  obtain ⟨hnone, hsome⟩ := hwrites.number?
  refine ⟨num, den, hwrites, fun hlong => ⟨hnone hlong, fun p lookup hp => ?_⟩, fun hshort => ?_⟩
  · have hvalue : Literal.numberValue? t.text = none := hnone hlong
    rw [hlexeme.read_numeral hkind hp, hvalue]
  · obtain ⟨x, hvalue, hrounded⟩ := hsome hshort
    refine ⟨x, hvalue, hrounded, fun p lookup hp => ?_⟩
    change Literal.numberValue? t.text = some x at hvalue
    rw [hlexeme.read_numeral hkind hp, hvalue]

/-- A hexadecimal numeral of fewer bits stands for a number. -/
theorem Source.numberValue?_of_mem_scan_hexadecimal :
    ∃ num den, Literal.Writes "0x1F".toList num den
      ∧ ∃ x, Literal.numberValue? "0x1F" = some x ∧ x.IsRounded num den := by
  have hscan : (ofString "0x1F").scan.tokens = [⟨.number, "0x1F", 1⟩] := by decide +kernel
  obtain ⟨num, den, hwrites, hlong, hshort⟩ :=
    numberValue?_of_mem_scan (hscan ▸ List.mem_singleton_self _) rfl (by decide) (by decide)
  refine ⟨num, den, hwrites, ?_⟩
  by_cases h : Literal.IsHexadecimal "0x1F".toList ∧ 2 ^ 63 ≤ num
  · exact absurd (hlong h).1 (by decide +kernel)
  · obtain ⟨x, hvalue, hrounded, -⟩ := hshort h
    exact ⟨x, hvalue, hrounded⟩

/-- The first hexadecimal numeral of 64 bits stands for nothing; its decimal form stands for a
number. -/
theorem Source.numberValue?_sixty_four_bits :
    (ofString "0x8000000000000000").scan.tokens = [⟨.number, "0x8000000000000000", 1⟩]
      ∧ Literal.numberValue? "0x8000000000000000" = none
      ∧ Script.read "0x8000000000000000"
        = .error (.script (.malformedNumber (.token ⟨.number, "0x8000000000000000", 1⟩)) 1)
      ∧ Literal.numberValue? "9223372036854775808" = some (.ofInt (2 ^ 63)) := by
  exact ⟨by decide +kernel, by decide +kernel, by rw [Script.read_eq]; with_unfolding_all rfl,
    by decide +kernel⟩

end ScriptReader

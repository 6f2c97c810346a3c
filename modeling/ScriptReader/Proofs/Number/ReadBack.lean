import Mathlib.Data.List.TakeWhile
import ScriptReader.Proofs.Number.Nearest

/-!
# Proofs/Number/ReadBack — the digits of a number say which number it is

`Decimal.ofText` reads digits with or without a point and an exponent.  What it reads from the
written form of a finite magnitude need not be the decimal that was written, as zeros may have been
added, but it has the same value (`Decimal.SameValue`), and its nearest number is the magnitude
(`Binary64.nearest_ofText`).  So two finite numbers with one written form are the same
(`Binary64.eq_of_documentText`).
-/

namespace ScriptReader

/-! ## Decimals of one value -/

namespace Decimal

/-- The decimals are equal as fractions. -/
def SameValue (d d' : Decimal) : Prop := d.ratio.1 * d'.ratio.2 = d'.ratio.1 * d.ratio.2

theorem ratio_pos (d : Decimal) : 0 < d.ratio.2 := Nat.pow_pos (by decide)

theorem SameValue.nearest_eq {d d' : Decimal} (h : d.SameValue d') : d.nearest = d'.nearest :=
  Binary64.nearest_congr d.ratio_pos d'.ratio_pos h

/-- Zeros behind the digits do not count. -/
theorem sameValue_padded (n k : Nat) (e : Int) : SameValue ⟨n * 10 ^ k, e - k⟩ ⟨n, e⟩ := by
  have hexponents : k + (e - k).toNat + (-e).toNat = e.toNat + (-(e - k)).toNat := by omega
  simp only [SameValue, ratio, Nat.pow_eq]
  rw [Nat.mul_assoc, Nat.mul_assoc, Nat.mul_assoc, ← Nat.pow_add, ← Nat.pow_add, ← Nat.pow_add,
    ← hexponents, Nat.add_assoc]

end Decimal

/-! ## Shortest decimals -/

namespace Binary64

theorem nearest_exactDecimal {m : Nat} (h : m < infinity) : (exactDecimal m).nearest = m := by
  have hvalue :
      (exactDecimal m).ratio.1 * (ratio m).2 = (ratio m).1 * (exactDecimal m).ratio.2 := by
    have htop : (min (exponent m) 0).toNat = 0 := by omega
    have hbottom : (-min (exponent m) 0).toNat = (-exponent m).toNat := by omega
    simp only [Decimal.ratio, exactDecimal, ratio, Nat.pow_eq, htop, hbottom, Nat.shiftLeft_eq,
      Nat.pow_zero, Nat.mul_one, Nat.one_mul]
    rw [Nat.mul_assoc, ← Nat.mul_pow]
  rw [Decimal.nearest, nearest_congr (exactDecimal m).ratio_pos (ratio_pos m) hvalue,
    nearest_ratio h]

/-- **The shortest decimal reads back.** -/
theorem nearest_shortest (tie : Tie) {m : Nat} (h : m < infinity) :
    (shortest tie m).nearest = m := by
  rw [shortest]
  dsimp only
  cases hfind : (List.range 18).findSome? fun n : Nat =>
      onGrid? tie m (pointPlace (ratio m).1 (ratio m).2 - n) with
  | none => exact nearest_exactDecimal h
  | some d =>
    obtain ⟨n, -, hgrid⟩ := List.exists_of_findSome?_eq_some hfind
    exact nearest_of_onGrid? hgrid

end Binary64

/-! ## Reading digits -/

namespace Decimal

/-- The exponent behind an `e`, with its sign. -/
def powerOf : List Char → Int
  | '+' :: ds => Nat.ofDigitChars 10 ds 0
  | '-' :: ds => -(Nat.ofDigitChars 10 ds 0 : Nat)
  | _ => 0

/-- The decimal that a text writes, by its digits, its point and its exponent. -/
def ofText (cs : List Char) : Decimal :=
  let mantissa := cs.takeWhile (· ≠ 'e')
  let fraction := (mantissa.dropWhile (· ≠ '.')).drop 1
  ⟨Nat.ofDigitChars 10 (mantissa.takeWhile (· ≠ '.') ++ fraction) 0,
    powerOf ((cs.dropWhile (· ≠ 'e')).drop 1) - fraction.length⟩

example : ofText "12.5e-3".toList = ⟨125, -4⟩ := by decide

variable {ds whole fraction : List Char}

theorem ne_of_isDigit {c : Char} (h : c.isDigit) : c ≠ 'e' ∧ c ≠ '.' := by
  constructor <;> rintro rfl <;> revert h <;> decide

theorem ofText_digits (h : ∀ c ∈ ds, c.isDigit) :
    ofText ds = ⟨Nat.ofDigitChars 10 ds 0, 0⟩ := by
  have hmantissa : ∀ c ∈ ds, decide (c ≠ 'e') = true :=
    fun c hc => decide_eq_true (ne_of_isDigit (h c hc)).1
  have hwhole : ∀ c ∈ ds, decide (c ≠ '.') = true :=
    fun c hc => decide_eq_true (ne_of_isDigit (h c hc)).2
  simp only [ofText, List.takeWhile_eq_self_iff.mpr hmantissa,
    List.takeWhile_eq_self_iff.mpr hwhole, List.dropWhile_eq_nil_iff.mpr hmantissa,
    List.dropWhile_eq_nil_iff.mpr hwhole, List.drop_nil, List.append_nil]
  rfl

theorem ofText_point (hwhole : ∀ c ∈ whole, c.isDigit) (hfraction : ∀ c ∈ fraction, c.isDigit) :
    ofText (whole ++ '.' :: fraction)
      = ⟨Nat.ofDigitChars 10 (whole ++ fraction) 0, -(fraction.length : Int)⟩ := by
  have hmantissa : ∀ c ∈ whole ++ '.' :: fraction, decide (c ≠ 'e') = true := by
    intro c hc
    rw [List.mem_append, List.mem_cons] at hc
    rcases hc with hc | rfl | hc
    · exact decide_eq_true (ne_of_isDigit (hwhole c hc)).1
    · rfl
    · exact decide_eq_true (ne_of_isDigit (hfraction c hc)).1
  have hpoint : ∀ c ∈ whole, decide (c ≠ '.') = true :=
    fun c hc => decide_eq_true (ne_of_isDigit (hwhole c hc)).2
  simp only [ofText, List.takeWhile_eq_self_iff.mpr hmantissa,
    List.dropWhile_eq_nil_iff.mpr hmantissa, List.takeWhile_append_of_pos hpoint,
    List.dropWhile_append_of_pos hpoint]
  simp [powerOf]

theorem ofText_cut (h : ∀ c ∈ ds, c.isDigit) (k : Nat) :
    ofText (ds.take k ++ '.' :: ds.drop k)
      = ⟨Nat.ofDigitChars 10 ds 0, -((ds.length - k : Nat) : Int)⟩ := by
  rw [ofText_point (fun c hc => h c (List.mem_of_mem_take hc))
    (fun c hc => h c (List.mem_of_mem_drop hc)), List.take_append_drop, List.length_drop]

/-- An exponent moves the point. -/
theorem ofText_power {mantissa power : List Char} (h : 'e' ∉ mantissa) :
    ofText (mantissa ++ 'e' :: power)
      = ⟨(ofText mantissa).digits, (ofText mantissa).exponent + powerOf power⟩ := by
  have hmantissa : ∀ c ∈ mantissa, decide (c ≠ 'e') = true :=
    fun c hc => decide_eq_true fun he => h (he ▸ hc)
  simp only [ofText, List.takeWhile_eq_self_iff.mpr hmantissa,
    List.dropWhile_eq_nil_iff.mpr hmantissa, List.takeWhile_append_of_pos hmantissa,
    List.dropWhile_append_of_pos hmantissa]
  simp [powerOf, Int.add_comm, Int.sub_eq_add_neg]

/-! ## Written decimals -/

theorem isDigit_digits (n : Nat) : ∀ c ∈ Nat.toDigits 10 n, c.isDigit :=
  fun _ hc => Nat.isDigit_of_mem_toDigits (by decide) (by decide) hc

theorem isDigit_zeros (k : Nat) : ∀ c ∈ List.replicate k '0', c.isDigit :=
  fun _ hc => List.eq_of_mem_replicate hc ▸ rfl

theorem isDigit_append (hwhole : ∀ c ∈ whole, c.isDigit) (hfraction : ∀ c ∈ fraction, c.isDigit) :
    ∀ c ∈ whole ++ fraction, c.isDigit :=
  List.forall_mem_append.mpr ⟨hwhole, hfraction⟩

theorem ofDigitChars_zeros_append (k : Nat) (ds : List Char) :
    Nat.ofDigitChars 10 (List.replicate k '0' ++ ds) 0 = Nat.ofDigitChars 10 ds 0 := by
  rw [Nat.ofDigitChars_append, Nat.ofDigitChars_replicate_zero, Nat.mul_zero]

theorem ofDigitChars_append_zeros (n k : Nat) :
    Nat.ofDigitChars 10 (Nat.toDigits 10 n ++ List.replicate k '0') 0 = n * 10 ^ k := by
  rw [Nat.ofDigitChars_append, Nat.ofDigitChars_ten_toDigits, Nat.ofDigitChars_replicate_zero,
    Nat.mul_comm]

/-- **The positional form has the value of what it writes.** -/
theorem sameValue_positional (d : Decimal) {mark : String} (hmark : mark = "" ∨ mark = ".0") :
    (ofText (d.positional mark).toList).SameValue d := by
  obtain ⟨n, e⟩ := d
  rw [positional]
  dsimp only
  split
  · next he =>
    have hdigits (k : Nat) : ∀ c ∈ Nat.toDigits 10 n ++ List.replicate k '0', c.isDigit :=
      isDigit_append (isDigit_digits n) (isDigit_zeros k)
    obtain rfl | rfl := hmark
    · have hread : ofText (Nat.toDigits 10 n ++ List.replicate e.toNat '0')
          = ⟨n * 10 ^ e.toNat, e - e.toNat⟩ := by
        rw [ofText_digits (hdigits _), ofDigitChars_append_zeros, Int.toNat_of_nonneg he,
          Int.sub_self]
      rw [String.append_empty, String.toList_ofList, hread]
      exact sameValue_padded n e.toNat e
    · have hread : ofText (Nat.toDigits 10 n ++ List.replicate e.toNat '0' ++ ".0".toList)
          = ⟨n * 10 ^ (e.toNat + 1), e - (e.toNat + 1 : Nat)⟩ := by
        refine (ofText_point (hdigits _) (isDigit_zeros 1)).trans ?_
        rw [List.append_assoc, List.replicate_append_replicate, ofDigitChars_append_zeros]
        congr 1
        simp
        omega
      rw [String.toList_append, String.toList_ofList, hread]
      exact sameValue_padded n (e.toNat + 1) e
  · next he =>
    have hpadded (k : Nat) : ∀ c ∈ List.replicate k '0' ++ Nat.toDigits 10 n, c.isDigit :=
      isDigit_append (isDigit_zeros k) (isDigit_digits n)
    have hread := ofText_cut (hpadded ((-e).toNat + 1 - (Nat.toDigits 10 n).length))
    rw [String.toList_ofList, hread, ofDigitChars_zeros_append, Nat.ofDigitChars_ten_toDigits]
    have hexponent (len : Nat) :
        (((-e).toNat + 1 - len + len - ((-e).toNat + 1 - len + len - (-e).toNat) : Nat) : Int)
          = -e := by omega
    rw [List.length_append, List.length_replicate, hexponent, Int.neg_neg]
    rfl

/-! The form with an exponent. -/

theorem toList_power (e : Int) :
    ((if e < 0 then "e-" else "e+") ++ toString e.natAbs).toList
      = 'e' :: (if e < 0 then '-' else '+') :: Nat.toDigits 10 e.natAbs := by
  rw [String.toList_append, Nat.toString_eq_repr, Nat.toList_repr]
  split <;> rfl

theorem powerOf_sign (e : Int) :
    powerOf ((if e < 0 then '-' else '+') :: Nat.toDigits 10 e.natAbs) = e := by
  split
  · simp only [powerOf, Nat.ofDigitChars_ten_toDigits]
    omega
  · simp only [powerOf, Nat.ofDigitChars_ten_toDigits]
    omega

theorem ofText_mantissa (h : ∀ c ∈ ds, c.isDigit) (hne : ds ≠ []) :
    ofText (ds.take 1 ++ if ds.drop 1 = [] then [] else '.' :: ds.drop 1)
      = ⟨Nat.ofDigitChars 10 ds 0, 1 - (ds.length : Int)⟩ := by
  have hlength := List.length_pos_iff.mpr hne
  split
  · next hdrop =>
    rw [List.drop_eq_nil_iff] at hdrop
    rw [List.append_nil, List.take_of_length_le hdrop, ofText_digits h]
    congr 1
    omega
  · rw [ofText_cut h]
    congr 1
    omega

/-- **The form with an exponent is read as what it writes.** -/
theorem ofText_scientific (d : Decimal) : ofText d.scientific.toList = d := by
  obtain ⟨n, e⟩ := d
  have hdigits := isDigit_digits n
  have hmantissa : 'e' ∉ (Nat.toDigits 10 n).take 1
      ++ if (Nat.toDigits 10 n).drop 1 = [] then [] else '.' :: (Nat.toDigits 10 n).drop 1 := by
    intro he
    have hdigit : 'e' ∈ Nat.toDigits 10 n := by
      rcases List.mem_append.mp he with he | he
      · exact List.mem_of_mem_take he
      · split at he
        · cases he
        · exact List.mem_of_mem_drop (List.mem_of_ne_of_mem (by decide) he)
    exact (ne_of_isDigit (hdigits _ hdigit)).1 rfl
  rw [scientific, String.append_assoc, String.toList_append, String.toList_ofList]
  dsimp only
  rw [toList_power, ofText_power hmantissa, ofText_mantissa hdigits Nat.toDigits_ne_nil,
    powerOf_sign, Nat.ofDigitChars_ten_toDigits]
  congr 1
  dsimp only
  omega

end Decimal

/-! ## Numerals -/

/-- May the character stand behind the first digit of a number? -/
def isNumeralPart (c : Char) : Bool := c.isDigit || ['.', 'e', '+', '-'].contains c

/-- A digit, and what may follow it. -/
def IsNumeral (cs : List Char) : Prop :=
  ∃ c rest, cs = c :: rest ∧ c.isDigit ∧ ∀ d ∈ rest, isNumeralPart d

theorem isNumeralPart_of_isDigit {c : Char} (h : c.isDigit) : isNumeralPart c := by
  rw [isNumeralPart, h, Bool.true_or]

theorem isNumeralPart_wholeMark {mark : String} (h : mark = "" ∨ mark = ".0") :
    ∀ c ∈ mark.toList, isNumeralPart c := by
  obtain rfl | rfl := h
  · intro c hc
    cases hc
  · exact List.forall_mem_cons.mpr ⟨rfl, List.forall_mem_singleton.mpr rfl⟩

theorem IsNumeral.of_digits {ds cs : List Char} (hds : ∀ c ∈ ds, c.isDigit) (hne : ds ≠ [])
    (hcs : ∀ c ∈ cs, isNumeralPart c) : IsNumeral (ds ++ cs) := by
  obtain ⟨c, rest, rfl⟩ := List.exists_cons_of_ne_nil hne
  obtain ⟨hc, hrest⟩ := List.forall_mem_cons.mp hds
  refine ⟨c, rest ++ cs, rfl, hc, List.forall_mem_append.mpr ⟨fun d hd => ?_, hcs⟩⟩
  exact isNumeralPart_of_isDigit (hrest d hd)

namespace Decimal

theorem isNumeral_positional (d : Decimal) {mark : String} (hmark : mark = "" ∨ mark = ".0") :
    IsNumeral (d.positional mark).toList := by
  obtain ⟨n, e⟩ := d
  have hdigits := isDigit_digits n
  have hpart {ds : List Char} (hds : ∀ c ∈ ds, c.isDigit) : ∀ c ∈ ds, isNumeralPart c :=
    fun c hc => isNumeralPart_of_isDigit (hds c hc)
  rw [positional]
  dsimp only
  split
  · rw [String.toList_append, String.toList_ofList, List.append_assoc]
    refine .of_digits hdigits Nat.toDigits_ne_nil (List.forall_mem_append.mpr ⟨?_, ?_⟩)
    · exact hpart (isDigit_zeros _)
    · exact isNumeralPart_wholeMark hmark
  · next he =>
    have hpadded (k : Nat) : ∀ c ∈ List.replicate k '0' ++ Nat.toDigits 10 n, c.isDigit :=
      isDigit_append (isDigit_zeros k) hdigits
    rw [String.toList_ofList]
    refine .of_digits (fun c hc => hpadded _ c (List.mem_of_mem_take hc)) ?_
      (List.forall_mem_cons.mpr ⟨rfl, fun c hc => ?_⟩)
    · refine List.ne_nil_of_length_pos ?_
      rw [List.length_take, List.length_append, List.length_replicate]
      omega
    · exact hpart (hpadded _) c (List.mem_of_mem_drop hc)

theorem isNumeral_scientific (d : Decimal) : IsNumeral d.scientific.toList := by
  obtain ⟨n, e⟩ := d
  have hdigits := isDigit_digits n
  have hpart {ds : List Char} (hds : ∀ c ∈ ds, c.isDigit) : ∀ c ∈ ds, isNumeralPart c :=
    fun c hc => isNumeralPart_of_isDigit (hds c hc)
  rw [scientific, String.append_assoc, String.toList_append, String.toList_ofList,
    List.append_assoc]
  dsimp only
  refine .of_digits (fun c hc => hdigits c (List.mem_of_mem_take hc)) ?_
    (List.forall_mem_append.mpr ⟨?_, ?_⟩)
  · refine List.ne_nil_of_length_pos ?_
    have hlength := List.length_pos_iff.mpr (Nat.toDigits_ne_nil (n := n) (b := 10))
    rw [List.length_take]
    omega
  · split
    · exact fun c hc => nomatch hc
    · exact List.forall_mem_cons.mpr ⟨rfl, fun c hc => hpart hdigits c (List.mem_of_mem_drop hc)⟩
  · rw [toList_power]
    refine List.forall_mem_cons.mpr ⟨rfl, List.forall_mem_cons.mpr ⟨?_, hpart (isDigit_digits _)⟩⟩
    split <;> rfl

end Decimal

namespace Binary64

open Decimal

variable {style : NumberStyle} (hstyle : style.wholeMark = "" ∨ style.wholeMark = ".0")

include hstyle in
theorem isNumeral_writtenMagnitude (m : Nat) : IsNumeral (writtenMagnitude style m).toList := by
  rw [writtenMagnitude]
  split
  · exact ⟨'0', style.wholeMark.toList, by rw [String.toList_append]; rfl, rfl,
      isNumeralPart_wholeMark hstyle⟩
  · dsimp only
    split
    · exact isNumeral_positional _ hstyle
    · exact isNumeral_scientific _

include hstyle in
/-- **The digits of a finite magnitude say which one it is.** -/
theorem nearest_ofText {m : Nat} (h : m < infinity) :
    (ofText (writtenMagnitude style m).toList).nearest = m := by
  rw [writtenMagnitude]
  split
  · next hzero =>
    rw [hzero]
    rcases hstyle with hmark | hmark <;> rw [hmark] <;> rfl
  · dsimp only
    split
    · rw [(sameValue_positional _ hstyle).nearest_eq, nearest_shortest _ h]
    · rw [ofText_scientific, nearest_shortest _ h]

/-- **Finite numbers with one written form are the same**, zeros with their signs too. -/
theorem eq_of_documentText {x y : Binary64} (hx : x.isFinite) (hy : y.isFinite)
    (h : x.documentText = y.documentText) : x = y := by
  have hstyle : NumberStyle.document.wholeMark = "" ∨ NumberStyle.document.wholeMark = ".0" :=
    .inr rfl
  have hmagnitude (h : writtenMagnitude .document x.magnitude
      = writtenMagnitude .document y.magnitude) : x.magnitude = y.magnitude := by
    rw [← nearest_ofText hstyle (of_decide_eq_true hx), h,
      nearest_ofText hstyle (of_decide_eq_true hy)]
  have hsign {m m' : Nat}
      (h : "-" ++ writtenMagnitude .document m = writtenMagnitude .document m') : False := by
    obtain ⟨c, rest, htext, hc, -⟩ := isNumeral_writtenMagnitude hstyle m'
    have hchars := congrArg String.toList h
    rw [String.toList_append, htext] at hchars
    cases hchars
    revert hc
    decide
  obtain ⟨xn, xm, hxm⟩ := x
  obtain ⟨yn, ym, hym⟩ := y
  simp only [documentText] at h hmagnitude
  cases xn <;> cases yn <;>
    simp only [Bool.false_eq_true, if_false, if_true, String.empty_append] at h
  · cases hmagnitude h
    rfl
  · exact (hsign h.symm).elim
  · exact (hsign h).elim
  · cases hmagnitude ((String.append_right_inj _).mp h)
    rfl

end Binary64

end ScriptReader

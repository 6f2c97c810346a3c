import ScriptReader.Number.Shortest

/-!
# Number/Written — numbers as text

A `NumberStyle` holds the choices of a written form: which way ties go, when the positional notation
gives way to an exponent, and what marks a whole number.  There are two: `NumberStyle.plain`, which
never uses an exponent, and `NumberStyle.document`, for trees written as documents.
-/

namespace ScriptReader

/-- The choices of a written form of numbers. -/
structure NumberStyle where
  tie : Tie
  /-- Is the notation positional when so many digits stand before the point? -/
  positional : Int → Bool
  /-- Follows the digits of a whole number in positional notation. -/
  wholeMark : String

namespace NumberStyle

/-- Always positional; a whole number has no point. -/
def plain : NumberStyle := ⟨.up, fun _ => true, ""⟩

/-- Positional from `10 ^ -5` up to `10 ^ 16`; a whole number ends in a point and a zero. -/
def document : NumberStyle := ⟨.toEven, fun p => -4 ≤ p && p ≤ 16, ".0"⟩

end NumberStyle

namespace Decimal

/-- The digits with the point at its place, and zeros where digits are missing. -/
def positional (d : Decimal) (wholeMark : String) : String :=
  let digits := Nat.toDigits 10 d.digits
  if 0 ≤ d.exponent then
    String.ofList (digits ++ List.replicate d.exponent.toNat '0') ++ wholeMark
  else
    let places := (-d.exponent).toNat
    let padded := List.replicate (places + 1 - digits.length) '0' ++ digits
    String.ofList
      (padded.take (padded.length - places) ++ '.' :: padded.drop (padded.length - places))

/-- One digit before the point, the others after it, and the exponent with its sign. -/
def scientific (d : Decimal) : String :=
  let digits := Nat.toDigits 10 d.digits
  let e : Int := d.exponent + digits.length - 1
  let fraction := digits.drop 1
  String.ofList (digits.take 1 ++ if fraction = [] then [] else '.' :: fraction) ++
    (if e < 0 then "e-" else "e+") ++ toString e.natAbs

end Decimal

namespace Binary64

/-- The digits of a finite magnitude. -/
def writtenMagnitude (style : NumberStyle) (magnitude : Nat) : String :=
  if magnitude = 0 then "0" ++ style.wholeMark
  else
    let d := shortest style.tie magnitude
    if style.positional (d.exponent + (Nat.toDigits 10 d.digits).length) then
      d.positional style.wholeMark
    else d.scientific

/-- A finite number in the form of documents, where even zero has a sign. -/
def documentText (x : Binary64) : String :=
  (if x.negative then "-" else "") ++ writtenMagnitude .document x.magnitude

/-- The magnitude, if it is a whole number of at most `2 ^ 53`. -/
def whole? (magnitude : Nat) : Option Nat :=
  let (num, den) := ratio magnitude
  if magnitude < infinity ∧ num % den = 0 ∧ num / den ≤ 1 <<< 53 then some (num / den) else none

/-- A number in plain form, where zero has no sign. -/
def plainText (x : Binary64) : String :=
  if x.isNaN then "NaN"
  else
    let sign := if x.negative && x.magnitude != 0 then "-" else ""
    match whole? x.magnitude with
    | some n => sign ++ toString n
    | none => sign ++ if x.isFinite then writtenMagnitude .plain x.magnitude else "inf"

end Binary64

end ScriptReader

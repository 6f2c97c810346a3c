import ScriptReader.Number.Rounding
import ScriptReader.Text.Character

/-!
# Literal/Number — the number that a numeral stands for

A numeral is hexadecimal after `0x`, a fraction if it has a point, and a whole number otherwise.
Whole numbers, hexadecimal ones too, are read into 64 bits and then rounded to the nearest number
(`int64?`); decimal digits that do not fit there are read as a fraction is (`float?`), and rounded
just as well.
-/

namespace ScriptReader.Literal

open ScriptReader.Text

/-- The value of digits in the given base, the first one leading. -/
def digitsValue (base : Nat) (digits : List Char) : Nat :=
  digits.foldl (fun n c => n * base + (hexValue? c).getD 0) 0

/-- An optional sign, and what follows it. -/
def sign? : List Char → Option Bool × List Char
  | '-' :: rest => (some true, rest)
  | '+' :: rest => (some false, rest)
  | cs => (none, cs)

/-- The exponent that digits write, which stops growing once it is past every number's exponent. -/
def exponentValue (digits : List Char) : Nat :=
  digits.foldl (fun n c => if n < 0x10000 then n * 10 + (hexValue? c).getD 0 else n) 0

/-- What follows the fraction: nothing, or an exponent. -/
def exponent? : List Char → Option Int
  | [] => some 0
  | e :: rest =>
    let (sign, digits) := sign? rest
    if (e = 'e' ∨ e = 'E') ∧ digits ≠ [] ∧ digits.all isDigit then
      some (if sign = some true then -(exponentValue digits : Int) else exponentValue digits)
    else none

/-- The digits behind a point, if there is one, and what follows. -/
def decimals : List Char → List Char × List Char
  | '.' :: rest => (rest.takeWhile isDigit, rest.dropWhile isDigit)
  | cs => ([], cs)

/-- The number that decimal digits write, with or without a point and an exponent. -/
def float? (cs : List Char) : Option Binary64 :=
  let (sign, rest) := sign? cs
  let whole := rest.takeWhile isDigit
  let (decimals, rest) := decimals (rest.dropWhile isDigit)
  if whole = [] ∧ decimals = [] then none
  else
    (exponent? rest).map fun e =>
      let x := Decimal.toBinary64 ⟨digitsValue 10 (whole ++ decimals), e - decimals.length⟩
      if sign = some true then x.neg else x

/-- Is the character a digit in the given base? -/
def isDigitIn (base : Nat) (c : Char) : Bool := (hexValue? c).any (· < base)

/-- The whole number that digits write in the given base, if it fits into 64 bits. -/
def int64? (base : Nat) (cs : List Char) : Option Int :=
  let (sign, digits) := sign? cs
  let n : Int := digitsValue base digits
  let n := if sign = some true then -n else n
  if digits ≠ [] ∧ digits.all (isDigitIn base) ∧ -0x8000000000000000 ≤ n ∧ n < 0x8000000000000000
  then some n else none

/-- The numeral of a whole number; if it is too long for 64 bits, digits are still a number. -/
def integer? (cs : List Char) : Option Binary64 :=
  match int64? 10 cs with
  | some n => some (.ofInt n)
  | none => if cs ≠ [] ∧ cs.all isDigit then float? cs else none

/-- The digits after `0x`; what follows them does not count. -/
def hexadecimal? (cs : List Char) : Option Binary64 :=
  let digits := cs.takeWhile isHexDigit
  if digits = [] then none else (int64? 16 digits).map .ofInt

/-- The number that a numeral stands for. -/
def number? : List Char → Option Binary64
  | '0' :: 'x' :: rest => hexadecimal? rest
  | '0' :: 'X' :: rest => hexadecimal? rest
  | cs => if cs.contains '.' then float? cs else integer? cs

/-- The number that a token's text stands for. -/
def numberValue? (literal : String) : Option Binary64 := number? literal.toList

end ScriptReader.Literal

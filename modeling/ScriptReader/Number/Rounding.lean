import ScriptReader.Number.Binary64

/-!
# Number/Rounding — the nearest number to a quotient, ties to even

A decimal is `digits · 10 ^ exponent`, hence a quotient of whole numbers; `nearest` rounds a
quotient to the nearest magnitude.  It first finds the power of two in whose steps the quotient
takes at most 53 bits (`gridScale`), then rounds once to a whole number of steps.
-/

namespace ScriptReader

/-- The quotient rounded to the nearest whole number, a half to the even one. -/
def roundQuotient (num den : Nat) : Nat :=
  if 2 * (num % den) < den ∨ 2 * (num % den) = den ∧ num / den % 2 = 0 then num / den
  else num / den + 1

/-- What is rounded is off by at most half a unit. -/
theorem two_mul_roundQuotient (num den : Nat) (h : 0 < den) :
    2 * num ≤ 2 * (roundQuotient num den * den) + den ∧
      2 * (roundQuotient num den * den) ≤ 2 * num + den := by
  have hdiv := Nat.div_add_mod num den
  have hlt := Nat.mod_lt num h
  rw [Nat.mul_comm] at hdiv
  unfold roundQuotient
  split
  · omega
  · rw [Nat.add_mul, Nat.one_mul]; omega

/-- A whole quotient is its own rounding. -/
@[simp] theorem roundQuotient_mul_left (n : Nat) {den : Nat} (h : 0 < den) :
    roundQuotient (n * den) den = n := by
  simp [roundQuotient, Nat.mul_mod_left, Nat.mul_div_cancel n h, h]

namespace Binary64

/-- The quotient in steps of `2 ^ (s - 1074)`, as a quotient again. -/
def steps (num den s : Nat) : Nat × Nat := (num <<< (1074 - s), den <<< (s - 1074))

/-- The least scale at which the quotient is less than `2 ^ 53` steps. -/
def gridScale (num den : Nat) : Nat :=
  let s := (num.log2 : Int) - den.log2 - 53 + 1074 |>.toNat
  let (n, d) := steps num den s
  if n / d < 1 <<< 53 then s else s + 1

/-- The nearest magnitude to a quotient, a tie to the one with an even significand. -/
def nearest (num den : Nat) : Nat :=
  if num = 0 then 0
  else
    let s := gridScale num den
    let (n, d) := steps num den s
    min infinity (encode (roundQuotient n d) s)

end Binary64

/-- The value `digits · 10 ^ exponent`. -/
structure Decimal where
  digits : Nat
  exponent : Int
  deriving DecidableEq, Repr

namespace Decimal

/-- The value as a quotient. -/
def ratio (d : Decimal) : Nat × Nat :=
  (d.digits * Nat.pow 10 d.exponent.toNat, Nat.pow 10 (-d.exponent).toNat)

/-- The nearest magnitude to a decimal. -/
def nearest (d : Decimal) : Nat := Binary64.nearest d.ratio.1 d.ratio.2

/-- The nearest number to a decimal. -/
def toBinary64 (d : Decimal) : Binary64 := .ofMagnitude d.nearest

end Decimal

/-- The nearest number to a whole number. -/
def Binary64.ofInt (n : Int) : Binary64 :=
  let x := Decimal.toBinary64 ⟨n.natAbs, 0⟩
  if n < 0 then x.neg else x

theorem Binary64.ofInt_natCast (n : Nat) : ofInt n = Decimal.toBinary64 ⟨n, 0⟩ := by
  rw [ofInt, if_neg (Int.not_lt_of_ge (Int.natCast_nonneg n)), Int.natAbs_natCast]

example : (Binary64.ofInt (2 ^ 53 + 1)).bits = 0x4340000000000000 := by decide +kernel
example : (Binary64.ofInt (2 ^ 53 + 3)).bits = 0x4340000000000002 := by decide +kernel
example : (Decimal.toBinary64 ⟨1, -1⟩).bits = 0x3FB999999999999A := by decide +kernel
example : (Decimal.toBinary64 ⟨5, -324⟩).bits = 1 := by decide +kernel
example : (Decimal.toBinary64 ⟨2, 308⟩).bits = 0x7FF0000000000000 := by decide +kernel

end ScriptReader

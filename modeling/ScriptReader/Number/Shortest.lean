import ScriptReader.Number.Rounding

/-!
# Number/Shortest — the fewest decimal digits that read back

For 0, 1, … 17 digits, `Binary64.shortest` tries the two neighbours of a magnitude on the grid of
decimals with that many digits (on the coarsest grid that is the next power of ten): the first grid
with a neighbour that reads back as the magnitude wins.  If both do, the nearer wins, and a `Tie`
settles the rest.  What a grid yields reads back by `nearest_of_onGrid?`.
-/

namespace ScriptReader

/-- Which neighbour wins at exactly equal distance. -/
inductive Tie where
  | toEven
  | up
  deriving DecidableEq, Repr

namespace Binary64

/-- How many decimal digits stand before the point, or minus the zeros right after it: the value
lies between `10 ^ (p - 1)` and `10 ^ p`. -/
def pointPlace (num den : Nat) : Int :=
  if den ≤ num then (Nat.toDigits 10 (num / den)).length
  else 1 - ((Nat.toDigits 10 ((den - 1) / num)).length : Int)

/-- The neighbour on the grid of multiples of `10 ^ e` that reads back as the magnitude, if any. -/
def onGrid? (tie : Tie) (magnitude : Nat) (e : Int) : Option Decimal :=
  let (num, den) := ratio magnitude
  let n := num * Nat.pow 10 (-e).toNat
  let d := den * Nat.pow 10 e.toNat
  let below : Decimal := ⟨n / d, e⟩
  let above : Decimal := ⟨n / d + 1, e⟩
  let first := 2 * (n % d) < d ∨ 2 * (n % d) = d ∧ tie = .toEven ∧ n / d % 2 = 0
  ((if first then [below, above] else [above, below]).find? fun c => c.nearest = magnitude)

theorem nearest_of_onGrid? {tie : Tie} {magnitude : Nat} {e : Int} {d : Decimal}
    (h : onGrid? tie magnitude e = some d) : d.nearest = magnitude := by
  simpa using List.find?_some h

/-- The decimal that equals the magnitude. -/
def exactDecimal (magnitude : Nat) : Decimal :=
  let e := exponent magnitude
  ⟨significand magnitude <<< e.toNat * Nat.pow 5 (-e).toNat, min e 0⟩

/-- The shortest decimal that reads back as a finite magnitude. -/
def shortest (tie : Tie) (magnitude : Nat) : Decimal :=
  let (num, den) := ratio magnitude
  let p := pointPlace num den
  ((List.range 18).findSome? fun n : Nat => onGrid? tie magnitude (p - n)).getD
    (exactDecimal magnitude)

end Binary64

end ScriptReader

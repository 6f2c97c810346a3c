/-!
# Text/Runs — sets of characters as ascending runs of code points

A property of the Unicode Standard is a set of code points, listed as closed runs in ascending
order.  `Runs.has` stops at the first run that begins past the code point, so that the order of the
runs matters: `has_cons` is the equation it computes by.
-/

namespace ScriptReader.Text

/-- Closed runs of code points, in ascending order. -/
abbrev Runs := List (Nat × Nat)

/-- Does the code point lie in one of the runs? -/
def Runs.has : Runs → Nat → Bool
  | [], _ => false
  | (first, last) :: rest, n => first ≤ n && (n ≤ last || Runs.has rest n)

@[simp] theorem Runs.has_nil (n : Nat) : Runs.has [] n = false := rfl

theorem Runs.has_cons (first last : Nat) (rest : Runs) (n : Nat) :
    Runs.has ((first, last) :: rest) n = (first ≤ n && (n ≤ last || Runs.has rest n)) := rfl

/-- Nothing below the first run belongs to the set. -/
theorem Runs.has_eq_false_of_lt {first last n : Nat} {rest : Runs} (h : n < first) :
    Runs.has ((first, last) :: rest) n = false := by
  rw [has_cons, decide_eq_false (Nat.not_le.mpr h), Bool.false_and]

end ScriptReader.Text

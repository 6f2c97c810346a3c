import ScriptReader.Proofs.Source.Moves

/-!
# Proofs/Source/Lowered — what is scanned does not depend on the line that the text begins on

A source can be moved down by some lines (`Source.lower`).  Every move of the scanner does the same
there, further down (`Source.move_lower`), and so does every scan: `Source.scan_lower`.
-/

namespace ScriptReader

variable (n : Nat)

/-- The token, further down. -/
def Token.lower (t : Token) : Token := { t with line := t.line + n }

/-- The open brackets, further down. -/
def Brackets.lower (open_ : Brackets) : Brackets := open_.map fun (b, line) => (b, line + n)

/-- The flaw, further down. -/
def Flaw.lower (f : Flaw) : Flaw := ⟨f.problem, f.line + n, f.unfinished.map (Token.lower n)⟩

namespace Source

/-- The same text, further down. -/
def lower (src : Source) : Source := { src with line := src.line + n }

theorem after_lower (src : Source) (text rest : List Char) :
    (src.lower n).after text rest = (src.after text rest).lower n := by
  rw [after, lower, lower, after, Nat.add_right_comm]

end Source

/-- The same scan, further down. -/
def Scan.lower (s : Scan) : Scan :=
  ⟨s.tokens.map (Token.lower n), s.source.lower n, s.flaw.map (Flaw.lower n)⟩

/-- The same move, further down. -/
def Move.lower : Move → Move
  | skip next => .skip (next.lower n)
  | form kind text open_ next => .form kind text (open_.lower n) (next.lower n)
  | stop next flaw => .stop (next.lower n) (flaw.map (Flaw.lower n))

theorem Brackets.pass?_lower (open_ : Brackets) (line : Nat) (text : List Char) :
    (open_.lower n).pass? (line + n) text = (open_.pass? line text).map (Brackets.lower n) := by
  unfold pass?
  split
  · next c =>
    cases Bracket.ofOpener? c with
    | some b => rfl
    | none =>
      cases Bracket.ofCloser? c with
      | none => rfl
      | some b =>
        cases open_ with
        | nil => rfl
        | cons o outer =>
          change (if o.1 = b then some (lower n outer) else none)
            = (if o.1 = b then some outer else none).map (lower n)
          split <;> rfl
  · rfl

namespace Source

/-- **Further down, the same move is made.** -/
theorem move_lower (open_ : Brackets) (begun : Bool) (src : Source) :
    (src.lower n).move (open_.lower n) begun = (src.move open_ begun).lower n := by
  have hempty : (open_.lower n).isEmpty = open_.isEmpty := List.isEmpty_map
  have hrest : (src.lower n).rest = src.rest := rfl
  rw [move, move, hrest]
  split
  · split
    · cases open_ <;> rfl
    · rfl
  · next piece rest _ =>
    dsimp only
    rw [after_lower, hempty]
    split
    · rfl
    · split <;> rfl
    · next kind text _ =>
      have hpass : (open_.lower n).pass? (src.lower n).line text
          = (open_.pass? src.line text).map (Brackets.lower n) := Brackets.pass?_lower n _ _ _
      rw [hpass]
      cases open_.pass? src.line text <;> rfl
    · rfl
    · rfl

/-- **So what is scanned is the same.** -/
theorem scanFrom_lower (open_ : Brackets) (begun : Bool) (src : Source) :
    (src.lower n).scanFrom (open_.lower n) begun = (src.scanFrom open_ begun).lower n := by
  induction open_, begun, src using induction_on_moves with
  | skip open_ begun src next hmove ih =>
    have hlower := move_lower n open_ begun src
    rw [hmove] at hlower
    rw [scanFrom_of_skip hmove, scanFrom_of_skip hlower, ih]
  | form open_ begun src kind text open' next hmove ih =>
    have hlower := move_lower n open_ begun src
    rw [hmove] at hlower
    rw [scanFrom_of_form hmove, scanFrom_of_form hlower, ih]
    rfl
  | stop open_ begun src next flaw hmove =>
    have hlower := move_lower n open_ begun src
    rw [hmove] at hlower
    rw [scanFrom_of_stop hmove, scanFrom_of_stop hlower]
    rfl

theorem scan_lower (src : Source) : (src.lower n).scan = src.scan.lower n :=
  scanFrom_lower n [] false src

end Source

end ScriptReader

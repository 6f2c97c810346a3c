import ScriptReader.Text.Alphabetic
import ScriptReader.Text.Extending
import ScriptReader.Text.Numeric
import ScriptReader.Text.Unprintable

/-!
# Text/Character — the classes of characters that scripts and printed texts are told apart by

Words are made of letters, numbers and underscores of every script (`isWordStart`, `isWordPart`);
numbers are written in ASCII digits alone.  A printed text shows a character as it is only when it
`isShown`.
-/

namespace ScriptReader.Text

/-- A letter of any script. -/
def isLetter (c : Char) : Bool := alphabetic.has c.toNat

/-- A digit or other number of any script. -/
def isNumber (c : Char) : Bool := numeric.has c.toNat

/-- May the character begin a word? -/
def isWordStart (c : Char) : Bool := isLetter c || c == '_'

/-- May the character stand inside a word? -/
def isWordPart (c : Char) : Bool := isLetter c || isNumber c || c == '_'

/-- One of the ten ASCII digits. -/
def isDigit (c : Char) : Bool := '0' ≤ c && c ≤ '9'

/-- The value of a hexadecimal digit in either case. -/
def hexValue? (c : Char) : Option Nat :=
  if '0' ≤ c ∧ c ≤ '9' then some (c.toNat - '0'.toNat)
  else if 'a' ≤ c ∧ c ≤ 'f' then some (c.toNat - 'a'.toNat + 10)
  else if 'A' ≤ c ∧ c ≤ 'F' then some (c.toNat - 'A'.toNat + 10)
  else none

theorem hexValue?_digitChar : ∀ n < 16, hexValue? (Nat.digitChar n) = some n := by decide

/-- A hexadecimal digit in either case. -/
def isHexDigit (c : Char) : Bool := (hexValue? c).isSome

/-- Letters that stand for the absence of a letter. -/
def fillers : Runs := [(0x115F, 0x1160), (0x3164, 0x3164), (0xFFA0, 0xFFA0)]

/-- Marks that join the character before them, but take a place of their own beside it. -/
def spacingMarks : Runs := [(0xFF9E, 0xFF9F)]

/-- Has the character a shape of its own to show? -/
def isShown (c : Char) : Bool :=
  !unprintable.has c.toNat && !fillers.has c.toNat &&
    (!extending.has c.toNat || spacingMarks.has c.toNat)

theorem isWordPart_of_isWordStart {c : Char} (h : isWordStart c) : isWordPart c := by
  simp only [isWordStart, isWordPart, Bool.or_eq_true] at h ⊢
  rcases h with h | h
  · exact .inl (.inl h)
  · exact .inr h

end ScriptReader.Text

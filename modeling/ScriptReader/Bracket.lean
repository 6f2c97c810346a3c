/-!
# Bracket — the three kinds of brackets
-/

namespace ScriptReader

inductive Bracket where
  | round
  | square
  | curly
  deriving DecidableEq, Repr

namespace Bracket

def opener : Bracket → Char
  | round => '('
  | square => '['
  | curly => '\x7b'

def closer : Bracket → Char
  | round => ')'
  | square => ']'
  | curly => '\x7d'

def all : List Bracket := [round, square, curly]

/-- The kind of bracket that a character opens. -/
def ofOpener? (c : Char) : Option Bracket := all.find? (·.opener == c)

/-- The kind of bracket that a character closes. -/
def ofCloser? (c : Char) : Option Bracket := all.find? (·.closer == c)

/-! ## Brackets as the texts of tokens -/

def openerText : Bracket → String
  | round => "("
  | square => "["
  | curly => "\x7b"

def closerText : Bracket → String
  | round => ")"
  | square => "]"
  | curly => "\x7d"

theorem openerText_eq (b : Bracket) : b.openerText = b.opener.toString := by cases b <;> rfl

theorem closerText_eq (b : Bracket) : b.closerText = b.closer.toString := by cases b <;> rfl

/-- The kind of bracket that a token's text opens. -/
def ofOpenerText? (s : String) : Option Bracket := all.find? (·.openerText == s)

/-- The kind of bracket that a token's text closes. -/
def ofCloserText? (s : String) : Option Bracket := all.find? (·.closerText == s)

theorem eq_openerText_of_ofOpenerText? {s : String} {b : Bracket} (h : ofOpenerText? s = some b) :
    s = b.openerText := by
  have := List.find?_some h
  simp only [beq_iff_eq] at this
  exact this.symm

theorem eq_closerText_of_ofCloserText? {s : String} {b : Bracket} (h : ofCloserText? s = some b) :
    s = b.closerText := by
  have := List.find?_some h
  simp only [beq_iff_eq] at this
  exact this.symm

end Bracket

end ScriptReader

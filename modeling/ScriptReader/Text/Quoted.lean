import ScriptReader.Text.Character

/-!
# Text/Quoted — texts written between double quotes

A quoted text shows what has a shape of its own, and escapes the rest: the usual controls by a
letter, the backslash and the double quote by a backslash, anything else that does not show by its
code point.  An apostrophe stands for itself.
-/

namespace ScriptReader.Text

/-- A code point in lower-case hexadecimal, between braces. -/
def codePointEscape (c : Char) : List Char :=
  ['\\', 'u', '\x7b'] ++ Nat.toDigits 16 c.toNat ++ ['\x7d']

/-- The written form of one character. -/
def writtenChar (c : Char) : List Char :=
  if c = '\x00' then ['\\', '0']
  else if c = '\t' then ['\\', 't']
  else if c = '\r' then ['\\', 'r']
  else if c = '\n' then ['\\', 'n']
  else if c = '\\' ∨ c = '"' then ['\\', c]
  else if isShown c then [c]
  else codePointEscape c

/-- The text between double quotes. -/
def quoted (s : String) : String :=
  String.ofList ('"' :: s.toList.flatMap writtenChar ++ ['"'])

end ScriptReader.Text

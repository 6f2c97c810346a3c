import ScriptReader.Text.Bytes
import ScriptReader.Text.Character
import ScriptReader.Token

/-!
# Literal/Text — the text that a string literal stands for

Between its quotes a string literal may write a character as an escape.  A backslash that begins no
escape stands for itself, and so does what follows it.
-/

namespace ScriptReader.Literal

open ScriptReader.Text

/-- The character that a one-letter escape stands for. -/
def escaped? : Char → Option Char
  | '\\' => some '\\'
  | '\'' => some '\''
  | '"' => some '"'
  | 'a' => some '\x07'
  | 'b' => some '\x08'
  | 'f' => some '\x0c'
  | 'n' => some '\n'
  | 'r' => some '\r'
  | 't' => some '\t'
  | 'v' => some '\x0b'
  | _ => none

/-- The character whose code is given by two hexadecimal digits. -/
def hexEscape? (a b : Char) : Option Char := do
  return Char.ofNat ((← hexValue? a) * 16 + (← hexValue? b))

/-- Replaces the escapes of a literal's body. -/
def resolveEscapes : List Char → List Char
  | [] => []
  | ['\\'] => ['\\']
  | '\\' :: 'x' :: a :: b :: rest =>
    match hexEscape? a b with
    | some c => c :: resolveEscapes rest
    | none => '\\' :: 'x' :: resolveEscapes (a :: b :: rest)
  | '\\' :: e :: rest =>
    match escaped? e with
    | some c => c :: resolveEscapes rest
    | none => '\\' :: e :: resolveEscapes rest
  | c :: rest => c :: resolveEscapes rest

/-- How many quotes stand at either end of a literal. -/
def quoteCount : Kind → Nat
  | .longString => 3
  | _ => 1

/-- What stands between the quotes; nothing if there is no room for them. -/
def body (kind : Kind) (literal : List Char) : List Char :=
  let quotes := quoteCount kind
  (slice? quotes (byteCount literal - quotes) literal).getD []

/-- The text that a string literal stands for. -/
def textValue (kind : Kind) (literal : String) : String :=
  String.ofList (resolveEscapes (body kind literal.toList))

example :
    resolveEscapes ['\\', 'x', '4', '1', '\\', 'q', '\\', 'n'] = ['A', '\\', 'q', '\n'] := by
  decide
example : textValue .longString "'''a'''" = "a" := by decide
example : textValue .longString "'''" = "" := by decide

end ScriptReader.Literal

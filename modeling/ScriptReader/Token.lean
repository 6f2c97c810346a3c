/-!
# Token — the words of a script

A token is a piece of the script's text with the kind it was recognised as and the line it begins
on.  Brackets and punctuation are all operators: only their text tells them apart.
-/

namespace ScriptReader

/-- What a token was recognised as. -/
inductive Kind where
  /-- Not recognised yet. -/
  | unknown
  | keyword
  | operator
  | apostropheString
  | quotedString
  /-- Between tripled quotes of either kind. -/
  | longString
  | number
  | identifier
  deriving DecidableEq, Repr, Inhabited

namespace Kind

/-- The name of a kind in messages and listings. -/
def label : Kind → String
  | unknown => "UNKNOWN"
  | keyword => "KEYWORD"
  | operator => "OPERATOR"
  | apostropheString => "LITERAL_STRING_APOSTROPHE"
  | quotedString => "LITERAL_STRING_QUOTED"
  | longString => "LITERAL_STRING_LONG"
  | number => "LITERAL_NUMBER"
  | identifier => "IDENTIFIER"

/-- Every kind, once. -/
def all : List Kind :=
  [unknown, keyword, operator, apostropheString, quotedString, longString, number, identifier]

theorem mem_all (k : Kind) : k ∈ all := by cases k <;> decide

/-- The kind of a given name. -/
def ofLabel? (s : String) : Option Kind := all.find? (·.label == s)

end Kind

/-- A recognised piece of the script's text. -/
structure Token where
  kind : Kind
  text : String
  /-- The line it begins on; the first line is 1. -/
  line : Nat
  deriving DecidableEq, Repr, Inhabited

/-- The words that are no identifiers. -/
def reservedWords : List String :=
  ["and", "break", "continue", "def", "elif", "else", "end", "for", "if", "in", "not", "or",
    "print", "return", "while", "True", "False", "None"]

/-- Is the word reserved? -/
def isReserved (word : String) : Bool := reservedWords.contains word

end ScriptReader

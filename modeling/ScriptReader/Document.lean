import ScriptReader.Text.Character

/-!
# Document — trees of lists and records as text

A document is written on one line (`compact`), or with an item to a line and two blanks of
indentation for every level (`pretty`).  Fields stay in their order.
-/

namespace ScriptReader

inductive Document where
  | null
  | text (s : String)
  /-- A number, by its digits. -/
  | number (digits : String)
  | list (items : List Document)
  | record (fields : List (String × Document))
  deriving Repr, Inhabited

namespace Document

/-- A record of one field. -/
def tagged (tag : String) (d : Document) : Document := .record [(tag, d)]

/-! ## Strings -/

/-- The written form of one character. -/
def writtenChar (c : Char) : List Char :=
  if c = '"' then ['\\', '"']
  else if c = '\\' then ['\\', '\\']
  else if c = '\x08' then ['\\', 'b']
  else if c = '\x0c' then ['\\', 'f']
  else if c = '\n' then ['\\', 'n']
  else if c = '\r' then ['\\', 'r']
  else if c = '\t' then ['\\', 't']
  else if c.toNat < 0x20 then
    ['\\', 'u', '0', '0', Nat.digitChar (c.toNat / 16), Nat.digitChar (c.toNat % 16)]
  else [c]

/-- A string between quotes. -/
def writtenString (s : String) : String :=
  String.ofList ('"' :: s.toList.flatMap writtenChar ++ ['"'])

/-! ## On one line -/

mutual

/-- The document on one line, without blanks. -/
def compact : Document → String
  | null => "null"
  | text s => writtenString s
  | number digits => digits
  | list [] => "[]"
  | list (d :: ds) => "[" ++ d.compact ++ compactItems ds ++ "]"
  | record [] => "\x7b\x7d"
  | record ((key, d) :: fields) =>
    "\x7b" ++ writtenString key ++ ":" ++ d.compact ++ compactFields fields ++ "\x7d"

/-- Further items, with a comma before each. -/
def compactItems : List Document → String
  | [] => ""
  | d :: ds => "," ++ d.compact ++ compactItems ds

def compactFields : List (String × Document) → String
  | [] => ""
  | (key, d) :: fields => "," ++ writtenString key ++ ":" ++ d.compact ++ compactFields fields

end

/-! ## An item to a line -/

/-- A line break and the indentation of a level. -/
def newLine (depth : Nat) : String :=
  String.ofList ('\n' :: List.replicate (2 * depth) ' ')

mutual

/-- The document with an item to a line, its items at the level after `depth`. -/
def prettyAt (depth : Nat) : Document → String
  | null => "null"
  | text s => writtenString s
  | number digits => digits
  | list [] => "[]"
  | list (d :: ds) =>
    "[" ++ newLine (depth + 1) ++ d.prettyAt (depth + 1) ++ prettyItems (depth + 1) ds ++
      newLine depth ++ "]"
  | record [] => "\x7b\x7d"
  | record ((key, d) :: fields) =>
    "\x7b" ++ newLine (depth + 1) ++ writtenString key ++ ": " ++ d.prettyAt (depth + 1) ++
      prettyFields (depth + 1) fields ++ newLine depth ++ "\x7d"

def prettyItems (depth : Nat) : List Document → String
  | [] => ""
  | d :: ds => "," ++ newLine depth ++ d.prettyAt depth ++ prettyItems depth ds

def prettyFields (depth : Nat) : List (String × Document) → String
  | [] => ""
  | (key, d) :: fields =>
    "," ++ newLine depth ++ writtenString key ++ ": " ++ d.prettyAt depth ++
      prettyFields depth fields

end

/-- The document with an item to a line. -/
def pretty (d : Document) : String := d.prettyAt 0

end Document

end ScriptReader

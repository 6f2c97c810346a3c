/-!
# Tree/Operator — operators, built-in functions and the ways a name is looked up

Besides the operators that combine operands, `Operator` tells the kinds of brackets apart while an
expression is taken to pieces: calls, arrays, dictionaries and plain parentheses.
-/

namespace ScriptReader

/-! ## Operators -/

inductive Operator where
  | plusAssign
  | minusAssign
  | multiplyAssign
  | divideAssign
  | moduloAssign
  | or
  | and
  | not
  | within
  | equal
  | notEqual
  | less
  | greater
  | lessEqual
  | greaterEqual
  | plus
  | minus
  | multiply
  | divide
  | modulo
  | member
  | call
  | index
  | slice
  | array
  | dictionary
  | parenthesis
  deriving DecidableEq, Repr, Inhabited

namespace Operator

/-- The operator as scripts and printed trees write it. -/
def symbol : Operator → String
  | plusAssign => "+="
  | minusAssign => "-="
  | multiplyAssign => "*="
  | divideAssign => "/="
  | moduloAssign => "%="
  | or => "or"
  | and => "and"
  | not => "not"
  | within => "in"
  | equal => "=="
  | notEqual => "!="
  | less => "<"
  | greater => ">"
  | lessEqual => "<="
  | greaterEqual => ">="
  | plus => "+"
  | minus => "-"
  | multiply => "*"
  | divide => "/"
  | modulo => "%"
  | member => "."
  | call => "call"
  | index => "index"
  | slice => "slice"
  | array => "array"
  | dictionary => "dict"
  | parenthesis => "()"

/-- The operator's name in documents. -/
def label : Operator → String
  | plusAssign => "PlusAssign"
  | minusAssign => "MinusAssign"
  | multiplyAssign => "MultiplyAssign"
  | divideAssign => "DivideAssign"
  | moduloAssign => "ModuloAssign"
  | or => "Or"
  | and => "And"
  | not => "Not"
  | within => "In"
  | equal => "Equal"
  | notEqual => "NotEqual"
  | less => "Less"
  | greater => "Greater"
  | lessEqual => "Leq"
  | greaterEqual => "Geq"
  | plus => "Plus"
  | minus => "Minus"
  | multiply => "Multiply"
  | divide => "Divide"
  | modulo => "Modulo"
  | member => "Member"
  | call => "Call"
  | index => "Index"
  | slice => "Slice"
  | array => "Array"
  | dictionary => "Dictionary"
  | parenthesis => "Parenthesis"

/-- Every operator, once. -/
def all : List Operator :=
  [plusAssign, minusAssign, multiplyAssign, divideAssign, moduloAssign, or, and, not, within, equal,
    notEqual, less, greater, lessEqual, greaterEqual, plus, minus, multiply, divide, modulo, member,
    call, index, slice, array, dictionary, parenthesis]

theorem mem_all (op : Operator) : op ∈ all := by cases op <;> decide

/-- The operator of a given name in documents. -/
def ofLabel? (s : String) : Option Operator := all.find? (·.label == s)

/-- Does the operator assign to its left operand, which then has to be a reference? -/
def assigns : Operator → Bool
  | plusAssign | minusAssign | multiplyAssign | divideAssign | moduloAssign => true
  | _ => false

end Operator

/-! ## Built-in functions -/

/-- The functions that need no definition. -/
inductive BuiltIn where
  | length
  | dictionaryKeys
  | dictionaryValues
  deriving DecidableEq, Repr, Inhabited

namespace BuiltIn

/-- The name by which scripts call the function. -/
def name : BuiltIn → String
  | length => "len"
  | dictionaryKeys => "dictkeys"
  | dictionaryValues => "dictvalues"

/-- The function's name in documents. -/
def label : BuiltIn → String
  | length => "Length"
  | dictionaryKeys => "DictionaryKeys"
  | dictionaryValues => "DictionaryValues"

/-- The function that scripts call by a name. -/
def ofName? (s : String) : Option BuiltIn :=
  [length, dictionaryKeys, dictionaryValues].find? (·.name == s)

end BuiltIn

/-! ## How names are looked up -/

/-- How a name finds its variable when the script runs. -/
structure Lookup where
  /-- The variable's value is meant. -/
  byValue : Bool
  /-- The variable itself is meant. -/
  byReference : Bool
  /-- Only the local scope is searched. -/
  localOnly : Bool
  /-- The variable is made if there is none. -/
  newVariable : Bool
  /-- There must be no such variable yet. -/
  notInScope : Bool
  deriving DecidableEq, Repr, Inhabited

namespace Lookup

def none : Lookup := ⟨false, false, false, false, false⟩

/-- For a name that is read. -/
def value : Lookup := { none with byValue := true }

/-- For a name that is written to through an operator, or called. -/
def reference : Lookup := { none with byReference := true }

/-- For a name that a loop or an assignment binds in the local scope. -/
def binding : Lookup := { none with byReference := true, localOnly := true, newVariable := true }

/-- For a name that an assignment binds wherever it is found. -/
def rebinding : Lookup := { none with byReference := true, newVariable := true }

/-- For the name of a function being defined. -/
def definition : Lookup :=
  { none with byReference := true, localOnly := true, notInScope := true }

/-- The look-up of a bit mask, the lowest bit first; further bits do not count. -/
def ofBits (n : Nat) : Lookup :=
  ⟨n.testBit 0, n.testBit 1, n.testBit 2, n.testBit 3, n.testBit 4⟩

/-- The names of what is set. -/
def labels (l : Lookup) : List String :=
  [(l.byValue, "BY_VALUE"), (l.byReference, "BY_REFERENCE"), (l.localOnly, "LOCAL_ONLY"),
    (l.newVariable, "NEW_VARIABLE"), (l.notInScope, "NOT_IN_SCOPE")].filterMap fun (set, name) =>
      if set then some name else .none

/-- The look-up as a document writes it. -/
def label (l : Lookup) : String := " | ".intercalate l.labels

end Lookup

end ScriptReader

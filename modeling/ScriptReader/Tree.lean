import ScriptReader.Number.Binary64
import ScriptReader.Tree.Operator

/-!
# Tree — what a script is made of

An expression is a constant, a name, a container, or an operator or function with its operands; a
statement is an expression or one of seven forms with expressions and bodies inside; a script is a
list of statements.  Trees own their texts and know nothing of tokens.
-/

namespace ScriptReader

/-! ## Expressions -/

inductive Constant where
  | none
  | boolean (b : Bool)
  | number (x : Binary64)
  | text (s : String)
  deriving DecidableEq, Repr, Inhabited

/-- An expression.  The arguments of a call are a dictionary of the named ones, then the others. -/
inductive Expr where
  | constant (c : Constant)
  | name (identifier : String) (lookup : Lookup)
  | array (items : List Expr)
  | dictionary (entries : List (Expr × Expr))
  | unary (op : Operator) (operand : Expr)
  | binary (op : Operator) (left right : Expr)
  | call (callee : Expr) (arguments : List Expr)
  | builtIn (function : BuiltIn) (arguments : List Expr)
  deriving Repr, Inhabited

namespace Expr

/-- What an absent expression stands for. -/
def nothing : Expr := .constant .none

def text (s : String) : Expr := .constant (.text s)

/-- The identifier of a plain name. -/
def identifier? : Expr → Option String
  | .name identifier _ => some identifier
  | _ => none

end Expr

/-! ## Statements -/

inductive Jump where
  | continueLoop
  | breakLoop
  | returnValue
  deriving DecidableEq, Repr, Inhabited

namespace Jump

/-- The keyword of a jump. -/
def keyword : Jump → String
  | continueLoop => "continue"
  | breakLoop => "break"
  | returnValue => "return"

/-- The jump's name in documents. -/
def label : Jump → String
  | continueLoop => "Continue"
  | breakLoop => "Break"
  | returnValue => "Return"

/-- The jump of a given name in documents. -/
def ofLabel? (s : String) : Option Jump :=
  [continueLoop, breakLoop, returnValue].find? (·.label == s)

end Jump

/-- An argument of a function, perhaps with a default. -/
structure Parameter where
  name : String
  default? : Option Expr
  deriving Repr, Inhabited

inductive Stmt where
  | expression (e : Expr)
  | print (arguments : List Expr)
  /-- Branches with their conditions, and what is done if none holds. -/
  | choice (branches : List (Expr × List Stmt)) (otherwise : Option (List Stmt))
  | whileLoop (condition : Expr) (body : List Stmt)
  | forLoop (iterator iterable : Expr) (body : List Stmt)
  | jump (kind : Jump) (value : Option Expr)
  /-- The target may be followed by indices, the outermost first. -/
  | assign (target : Expr) (indices : List Expr) (value : Expr)
  | function (name : Expr) (parameters : List Parameter) (body : List Stmt)
  deriving Repr, Inhabited

/-- A branch of a choice: its condition and its body. -/
abbrev Branch := Expr × List Stmt

/-- Statements one after another. -/
abbrev Script := List Stmt

end ScriptReader

import ScriptReader.Number.Written
import ScriptReader.Text.Quoted
import ScriptReader.Tree

/-!
# Tree/Printed — trees in prefix form

An expression is printed in parentheses with its operator first; a statement is a line, or a block
of lines that ends in `end`, with its body indented.  A call's named arguments are shown only if
there are any.
-/

namespace ScriptReader

/-! ## Expressions -/

def Constant.printed : Constant → String
  | none => "None"
  | boolean true => "True"
  | boolean false => "False"
  | number x => x.plainText
  | text s => Text.quoted s

mutual

/-- An expression in prefix form. -/
def Expr.printed : Expr → String
  | .constant c => c.printed
  | .name identifier _ => identifier
  | .array items => "(array" ++ printedEach items ++ ")"
  | .dictionary entries => "(dict" ++ printedEntries entries ++ ")"
  | .unary op operand => "(" ++ op.symbol ++ " " ++ operand.printed ++ ")"
  | .binary op left right =>
    "(" ++ op.symbol ++ " " ++ left.printed ++ " " ++ right.printed ++ ")"
  | .call callee arguments => "(call " ++ callee.printed ++ printedArguments arguments ++ ")"
  | .builtIn function arguments => "(" ++ function.name ++ printedArguments arguments ++ ")"

/-- Expressions with a blank before each. -/
def printedEach : List Expr → String
  | [] => ""
  | e :: es => " " ++ e.printed ++ printedEach es

def printedEntries : List (Expr × Expr) → String
  | [] => ""
  | (key, value) :: entries =>
    " (: " ++ key.printed ++ " " ++ value.printed ++ ")" ++ printedEntries entries

/-- The arguments of a call, without the dictionary of named ones if it is empty. -/
def printedArguments : List Expr → String
  | [] => ""
  | .dictionary [] :: es => printedEach es
  | e :: es => " " ++ e.printed ++ printedEach es

end

/-! ## Statements -/

/-- A line of text, indented. -/
def indented (depth : Nat) (line : String) : String :=
  String.ofList (List.replicate (2 * depth) ' ') ++ line ++ "\n"

/-- Does assigning to the target reach variables beyond the local scope? -/
def Expr.reachesOut : Expr → Bool
  | .name _ lookup => !lookup.localOnly
  | .unary .member (.name _ lookup) => !lookup.localOnly
  | .binary .member _ (.name _ lookup) => !lookup.localOnly
  | _ => false

/-- The operator of an assignment to the target. -/
def Expr.assignmentSymbol (target : Expr) : String := if target.reachesOut then ":=" else "="

/-- A target with its indices in brackets. -/
def printedTarget (target : Expr) (indices : List Expr) : String :=
  target.printed ++ String.join (indices.map fun e => "[" ++ e.printed ++ "]")

def Parameter.printed (p : Parameter) : String :=
  match p.default? with
  | some e => p.name ++ "=" ++ e.printed
  | none => p.name

/-- The line of a jump. -/
def printedJump (kind : Jump) : Option Expr → String
  | some value => "(" ++ kind.keyword ++ " " ++ value.printed ++ ")"
  | none => "(" ++ kind.keyword ++ ")"

mutual

/-- The lines of a statement, its first one at the given depth. -/
def Stmt.printed (depth : Nat) : Stmt → String
  | .expression e => indented depth e.printed
  | .print arguments => indented depth ("(print" ++ printedEach arguments ++ ")")
  | .choice branches none => printedBranches depth "if" branches ++ indented depth "end"
  | .choice branches (some body) =>
    printedBranches depth "if" branches ++ indented depth "else:" ++ printedBody (depth + 1) body ++
      indented depth "end"
  | .whileLoop condition body =>
    indented depth ("while " ++ condition.printed ++ ":") ++ printedBody (depth + 1) body ++
      indented depth "end"
  | .forLoop iterator iterable body =>
    indented depth ("for " ++ iterator.printed ++ " in " ++ iterable.printed ++ ":") ++
      printedBody (depth + 1) body ++ indented depth "end"
  | .jump kind value => indented depth (printedJump kind value)
  | .assign target indices value =>
    indented depth
      ("(" ++ target.assignmentSymbol ++ " " ++ printedTarget target indices ++ " " ++
        value.printed ++ ")")
  | .function name parameters body =>
    indented depth
        ("def " ++ name.printed ++ "(" ++ ", ".intercalate (parameters.map Parameter.printed) ++
          "):") ++
      printedBody (depth + 1) body ++ indented depth "end"

/-- The lines of statements one after another. -/
def printedBody (depth : Nat) : List Stmt → String
  | [] => ""
  | s :: body => s.printed depth ++ printedBody depth body

/-- The branches of a choice, the first of which begins with the given keyword. -/
def printedBranches (depth : Nat) (keyword : String) : List (Expr × List Stmt) → String
  | [] => ""
  | (condition, body) :: branches =>
    indented depth (keyword ++ " " ++ condition.printed ++ ":") ++ printedBody (depth + 1) body ++
      printedBranches depth "elif" branches

end

/-- A script in prefix form. -/
def Script.printed (script : Script) : String := printedBody 0 script

end ScriptReader

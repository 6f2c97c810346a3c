import ScriptReader.Document
import ScriptReader.Number.Written
import ScriptReader.Tree

/-!
# Tree/Document — trees as documents

A node is a record with the node's kind as its only field; a kind that holds nothing is a
text.  What a node holds comes in a fixed order, absent parts as `null`.
-/

namespace ScriptReader

/-- A number; what is not finite has no digits. -/
def Binary64.document (x : Binary64) : Document :=
  if x.isFinite then .number x.documentText else .null

def Constant.document : Constant → Document
  | none => .text "None"
  | boolean true => .text "True"
  | boolean false => .text "False"
  | number x => .tagged "Number" x.document
  | text s => .tagged "Text" (.text s)

mutual

/-- An expression as a document. -/
def Expr.document : Expr → Document
  | .constant c => .tagged "Constant" c.document
  | .name identifier lookup =>
    .tagged "Name" (.record [("identifier", .text identifier), ("flags", .text lookup.label)])
  | .array items => .tagged "Array" (.list (documents items))
  | .dictionary entries => .tagged "Dictionary" (.list (entryDocuments entries))
  | .unary op operand =>
    .tagged "Operator"
      (.record [("op", .text op.label), ("left", .null), ("right", operand.document)])
  | .binary op left right =>
    .tagged "Operator"
      (.record [("op", .text op.label), ("left", left.document), ("right", right.document)])
  | .call callee arguments =>
    .tagged "Call"
      (.record [("callee", callee.document), ("arguments", .list (documents arguments))])
  | .builtIn function arguments =>
    .tagged "BuiltIn"
      (.record [("kind", .text function.label), ("arguments", .list (documents arguments))])

def documents : List Expr → List Document
  | [] => []
  | e :: es => e.document :: documents es

/-- A key and its value are a list of two. -/
def entryDocuments : List (Expr × Expr) → List Document
  | [] => []
  | (key, value) :: entries => .list [key.document, value.document] :: entryDocuments entries

end

/-- An expression that may be absent. -/
def optionalDocument : Option Expr → Document
  | some e => e.document
  | none => .null

def Parameter.document (p : Parameter) : Document :=
  .record [("name", .text p.name), ("default", optionalDocument p.default?)]

mutual

/-- A statement as a document. -/
def Stmt.document : Stmt → Document
  | .expression e => .tagged "Expression" e.document
  | .print arguments => .tagged "Print" (.list (documents arguments))
  | .choice branches none =>
    .tagged "If"
      (.record [("branches", .list (branchDocuments branches)), ("else_compound", .null)])
  | .choice branches (some body) =>
    .tagged "If"
      (.record
        [("branches", .list (branchDocuments branches)),
          ("else_compound", .list (bodyDocuments body))])
  | .whileLoop condition body =>
    .tagged "While"
      (.record [("condition", condition.document), ("compound", .list (bodyDocuments body))])
  | .forLoop iterator iterable body =>
    .tagged "For"
      (.record
        [("iterator", iterator.document), ("iterable", iterable.document),
          ("compound", .list (bodyDocuments body))])
  | .jump kind value =>
    .tagged "Jump" (.record [("kind", .text kind.label), ("value", optionalDocument value)])
  | .assign target indices value =>
    .tagged "Assign"
      (.record
        [("target", target.document), ("indices", .list (documents indices)),
          ("value", value.document)])
  | .function name parameters body =>
    .tagged "Function"
      (.record
        [("name", name.document), ("arguments", .list (parameters.map Parameter.document)),
          ("compound", .list (bodyDocuments body))])

def bodyDocuments : List Stmt → List Document
  | [] => []
  | s :: body => s.document :: bodyDocuments body

def branchDocuments : List (Expr × List Stmt) → List Document
  | [] => []
  | (condition, body) :: branches =>
    .record [("condition", condition.document), ("compound", .list (bodyDocuments body))] ::
      branchDocuments branches

end

/-- A script as a document. -/
def Script.document (script : Script) : Document := .list (bodyDocuments script)

end ScriptReader

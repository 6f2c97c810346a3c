import ScriptReader.Proofs.Expr.Written
import ScriptReader.Proofs.Script.Blocks

/-!
# Proofs/Script/Written — the ways of writing statements down

A statement is written as the tokens of its first line and of the lines below it (`Stmt.Written`).
The body of a header stands below it, up to an `end`, or it is one statement beside it, behind a
colon; then a loop or a function has no `end`, while a choice always has one.  The names in a
statement are placed by the position they are written in.
-/

namespace ScriptReader

/-! ## Statements on one line -/

/-- What can be bound: a name, or a member that is a name. -/
inductive Expr.IsBindable : Expr → Prop
  | name (identifier : String) (lookup : Lookup) : IsBindable (.name identifier lookup)
  | member (e : Expr) (identifier : String) (lookup : Lookup) :
      IsBindable (.binary .member e (.name identifier lookup))

/-- An index behind the target of an assignment, and how it is written. -/
structure WrittenIndex where
  opener : Token
  index : Expr
  indexTokens : List Token
  closer : Token

def WrittenIndex.tokens (x : WrittenIndex) : List Token :=
  x.opener :: (x.indexTokens ++ [x.closer])

/-- A look-up is known by what is set in it. -/
theorem Lookup.eq_iff_labels {l l' : Lookup} : l = l' ↔ l.labels = l'.labels := by
  have hset : ∀ a b c d e : Bool, ∀ ls : List String, ls = labels ⟨a, b, c, d, e⟩ →
      (⟨a, b, c, d, e⟩ : Lookup) = ⟨"BY_VALUE" ∈ ls, "BY_REFERENCE" ∈ ls, "LOCAL_ONLY" ∈ ls,
        "NEW_VARIABLE" ∈ ls, "NOT_IN_SCOPE" ∈ ls⟩ := by
    rintro a b c d e ls rfl
    revert a b c d e
    decide
  exact ⟨congrArg labels, fun h => (hset _ _ _ _ _ _ rfl).trans (hset _ _ _ _ _ _ h).symm⟩

/-- **What is set where a name is bound in its scope**, by a loop or an equals sign. -/
theorem Lookup.eq_binding_iff {l : Lookup} :
    l = .binding ↔ l.labels = ["BY_REFERENCE", "LOCAL_ONLY", "NEW_VARIABLE"] := eq_iff_labels

/-- **What is set where a name is bound wherever it is found.** -/
theorem Lookup.eq_rebinding_iff {l : Lookup} :
    l = .rebinding ↔ l.labels = ["BY_REFERENCE", "NEW_VARIABLE"] := eq_iff_labels

/-- **What is set in the name of a function** that is defined. -/
theorem Lookup.eq_definition_iff {l : Lookup} :
    l = .definition ↔ l.labels = ["BY_REFERENCE", "LOCAL_ONLY", "NOT_IN_SCOPE"] := eq_iff_labels

/-- The operator of an assignment, and how it has names looked up. -/
inductive AssignmentOperator : Lookup → Token → Prop
  | binding {t : Token} (ht : t.Spells "=") : AssignmentOperator .binding t
  | rebinding {t : Token} (ht : t.Spells ":=") : AssignmentOperator .rebinding t

/-- **The tokens write the statement on one line.** -/
inductive Stmt.WrittenOnLine : Stmt → List Token → Prop
  | expression {e : Expr} {ts : List Token} (h : Written 0 e ts) :
      WrittenOnLine (.expression (e.placed .value)) ts
  | print {keyword : Token} {items : List (Expr × List Token)} {ts : List Token}
      (hk : keyword.Spells "print") (hitems : ∀ x ∈ items, Written 0 x.1 x.2)
      (hj : Joined "," (items.map (·.2)) ts) :
      WrittenOnLine (.print (Expr.placedAll (items.map (·.1)))) (keyword :: ts)
  | jump {kind : Jump} {keyword : Token} (hk : keyword.Spells kind.keyword) :
      WrittenOnLine (.jump kind none) [keyword]
  | jumpWith {kind : Jump} {keyword : Token} {e : Expr} {ts : List Token}
      (hkind : kind ≠ .continueLoop) (hk : keyword.Spells kind.keyword) (h : Written 0 e ts) :
      WrittenOnLine (.jump kind (some (e.placed .value))) (keyword :: ts)
  | assign {target value : Expr} {lookup : Lookup} {operator : Token} {ts vs : List Token}
      {indices : List WrittenIndex} (htarget : target.IsBindable)
      (ht : Written Operator.member.level target ts)
      (hb : ∀ x ∈ indices, Encloses .square x.opener x.closer)
      (hindices : ∀ x ∈ indices, Written 0 x.index x.indexTokens)
      (ho : AssignmentOperator lookup operator) (hv : Written 0 value vs) :
      WrittenOnLine (.assign (target.placed lookup)
          (Expr.placedAll (indices.map (·.index))) (value.placed .value))
        (ts ++ (indices.flatMap WrittenIndex.tokens ++ operator :: vs))

/-! ## Headers -/

/-- A parameter of a function, perhaps with a default behind an equals sign. -/
structure WrittenParameter where
  name : Token
  default? : Option (Token × Expr × List Token)

namespace WrittenParameter

def tokens (x : WrittenParameter) : List Token :=
  match x.default? with
  | some (equals, _, ts) => x.name :: equals :: ts
  | none => [x.name]

def parameter (x : WrittenParameter) : Parameter :=
  ⟨x.name.text, x.default?.map fun (_, e, _) => e.placed .value⟩

/-- The parameter is a word, and its default an expression. -/
structure IsWritten (x : WrittenParameter) : Prop where
  name : x.name.IsIdentifier
  default : ∀ equals e ts, x.default? = some (equals, e, ts) →
    equals.Spells "=" ∧ Written 0 e ts

end WrittenParameter

/-- **The tokens write what opens a body**, up to its colon. -/
inductive Opening.Written : Opening → List Token → Prop
  | whileLoop {keyword : Token} {condition : Expr} {ts : List Token}
      (hk : keyword.Spells "while") (h : ScriptReader.Written 0 condition ts) :
      Written (.whileLoop (condition.placed .value)) (keyword :: ts)
  | forLoop {keyword within : Token} {iterator iterable : Expr} {is ts : List Token}
      (hk : keyword.Spells "for") (htarget : iterator.IsBindable)
      (hi : ScriptReader.Written Operator.member.level iterator is) (hin : within.Spells "in")
      (h : ScriptReader.Written 0 iterable ts) :
      Written (.forLoop (iterator.placed .binding) (iterable.placed .value))
        (keyword :: (is ++ within :: ts))
  | function {keyword name o c : Token} {parameters : List WrittenParameter} {ts : List Token}
      (hk : keyword.Spells "def") (hname : name.IsIdentifier) (hb : Encloses .round o c)
      (hparameters : ∀ x ∈ parameters, x.IsWritten)
      (hj : Joined "," (parameters.map (·.tokens)) ts) :
      Written (.function (.name name.text .definition) (parameters.map (·.parameter)))
        (keyword :: name :: o :: (ts ++ [c]))

/-! ## Bodies -/

/-- A statement and its lines. -/
structure WrittenStmt where
  stmt : Stmt
  first : List Token
  below : List (List Token)

def WrittenStmt.lines (x : WrittenStmt) : List (List Token) := x.first :: x.below

/-- The body of a header: statements below it, where a colon may end the header, or one statement
beside it, behind a colon. -/
inductive Suite where
  | below (colon? : Option Token) (body : List WrittenStmt)
  | beside (colon : Token) (stmt : WrittenStmt)

namespace Suite

/-- The statements of the body. -/
def statements : Suite → List WrittenStmt
  | below _ body => body
  | beside _ stmt => [stmt]

def body (s : Suite) : List Stmt := s.statements.map (·.stmt)

/-- What follows the header on its line. -/
def tail : Suite → List Token
  | below colon? _ => colon?.toList
  | beside colon stmt => colon :: stmt.first

/-- The lines below the header's. -/
def lines : Suite → List (List Token)
  | below _ body => body.flatMap WrittenStmt.lines
  | beside _ stmt => stmt.below

/-- The colon, if there is one. -/
def colon? : Suite → Option Token
  | below colon? _ => colon?
  | beside colon _ => some colon

/-- Does the body stand beside the header? -/
def isBeside : Suite → Bool
  | below .. => false
  | beside .. => true

end Suite

/-- A branch of a choice with its keyword and its condition. -/
structure WrittenBranch where
  keyword : Token
  condition : Expr
  conditionTokens : List Token
  suite : Suite

namespace WrittenBranch

def first (b : WrittenBranch) : List Token := b.keyword :: (b.conditionTokens ++ b.suite.tail)

def lines (b : WrittenBranch) : List (List Token) := b.first :: b.suite.lines

def branch (b : WrittenBranch) : Branch := (b.condition.placed .value, b.suite.body)

end WrittenBranch

/-- The last branch of a choice, which has no condition. -/
structure WrittenElse where
  keyword : Token
  suite : Suite

def WrittenElse.lines (b : WrittenElse) : List (List Token) :=
  (b.keyword :: b.suite.tail) :: b.suite.lines

/-! ## Statements -/

/-- **The lines write the statement.** -/
inductive Stmt.Written : Stmt → List Token → List (List Token) → Prop
  | onLine {s : Stmt} {ts : List Token} (h : s.WrittenOnLine ts) : Written s ts []
  | block {o : Opening} {header : List Token} {colon? : Option Token} {body : List WrittenStmt}
      {last : Token} (ho : o.Written header) (hc : ∀ t ∈ colon?, t.Spells ":")
      (hbody : ∀ x ∈ body, Written x.stmt x.first x.below) (hlast : last.Spells "end") :
      Written (o.close (body.map (·.stmt))) (header ++ colon?.toList)
        (body.flatMap WrittenStmt.lines ++ [[last]])
  | inline {o : Opening} {header : List Token} {colon : Token} {x : WrittenStmt}
      (ho : o.Written header) (hc : colon.Spells ":") (hx : Written x.stmt x.first x.below) :
      Written (o.close [x.stmt]) (header ++ colon :: x.first) x.below
  | choice {b : WrittenBranch} {branches : List WrittenBranch} {otherwise : Option WrittenElse}
      {last : Token} (hif : b.keyword.Spells "if")
      (helif : ∀ x ∈ branches, x.keyword.Spells "elif")
      (helse : ∀ x ∈ otherwise, x.keyword.Spells "else")
      (hconditions : ∀ x ∈ b :: branches, ScriptReader.Written 0 x.condition x.conditionTokens)
      (hcolons : ∀ x ∈ b :: branches, ∀ t ∈ x.suite.colon?, t.Spells ":")
      (hcolon : ∀ x ∈ otherwise, ∀ t ∈ x.suite.colon?, t.Spells ":")
      (hbodies : ∀ x ∈ b :: branches, ∀ y ∈ x.suite.statements, Written y.stmt y.first y.below)
      (hbody : ∀ x ∈ otherwise, ∀ y ∈ x.suite.statements, Written y.stmt y.first y.below)
      (hlast : last.Spells "end") :
      Written (.choice ((b :: branches).map (·.branch)) (otherwise.map (·.suite.body))) b.first
        (b.suite.lines ++ branches.flatMap WrittenBranch.lines
          ++ otherwise.toList.flatMap WrittenElse.lines ++ [[last]])

/-- **The lines write the script**, statement by statement. -/
inductive Script.Written : Script → List (List Token) → Prop
  | intro {body : List WrittenStmt} (h : ∀ x ∈ body, x.stmt.Written x.first x.below) :
      Written (body.map (·.stmt)) (body.flatMap WrittenStmt.lines)

end ScriptReader

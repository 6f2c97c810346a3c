import ScriptReader.Expr.Reading

/-!
# Script/Line — what stands on one line

A line is a statement in itself (`Phrase.readSimple`), or the header of a body.  A body either
follows the header's colon on the same line, or comes on the lines below; in the first case the
reading of the header leaves the tokens of the body over (`Phrase.inlineBody?`), and
`size_inlineBody?_lt` says that they are fewer.
-/

namespace ScriptReader

/-- What opens a body other than the branch of a choice. -/
inductive Opening where
  | whileLoop (condition : Expr)
  | forLoop (iterator iterable : Expr)
  | function (name : Expr) (parameters : List Parameter)
  deriving Repr

namespace Opening

/-- The kind of block that the opening begins. -/
def block : Opening → BlockKind
  | whileLoop _ => .whileLoop
  | forLoop .. => .forLoop
  | function .. => .function

/-- The statement that the opening and its body make. -/
def close (body : List Stmt) : Opening → Stmt
  | whileLoop condition => .whileLoop condition body
  | forLoop iterator iterable => .forLoop iterator iterable body
  | function name parameters => .function name parameters body

end Opening

/-- What the header of a body has between its keyword and its end. -/
inductive HeaderRule where
  /-- A condition. -/
  | condition
  | nothing
  /-- Anything; what is of interest there has been read. -/
  | anything
  deriving DecidableEq, Repr

/-! ## Headers -/

namespace Phrase

/-- Where the header ends: at its colon, or at the end of the line. -/
def headerEnd (p : Phrase) : Nat := (p.findOutside? ":").getD p.size

/-- What follows the header's colon on the same line, if anything does. -/
def inlineBody? (p : Phrase) : Option Phrase :=
  match p.findOutside? ":" with
  | some colon => if colon + 1 < p.size then some (p.drop (colon + 1)) else none
  | none => none

theorem exists_of_inlineBody? {p q : Phrase} (h : p.inlineBody? = some q) :
    ∃ pos, 0 < pos ∧ pos < p.size ∧ q = p.drop pos := by
  unfold inlineBody? at h
  split at h
  · next colon _ =>
    split at h
    · next hlt =>
      cases h
      exact ⟨colon + 1, Nat.succ_pos _, hlt, rfl⟩
    · cases h
  · cases h

theorem size_inlineBody?_lt {p q : Phrase} (h : p.inlineBody? = some q) : q.size < p.size := by
  obtain ⟨pos, hpos, hlt, rfl⟩ := exists_of_inlineBody? h
  exact size_drop_lt hpos (Nat.zero_lt_of_lt hlt)

/-- A body behind a colon is not empty. -/
theorem isEmpty_inlineBody? {p q : Phrase} (h : p.inlineBody? = some q) : q.isEmpty = false := by
  obtain ⟨pos, -, hlt, rfl⟩ := exists_of_inlineBody? h
  have hsize : 0 < (p.drop pos).size := by rw [drop, size_slice]; omega
  exact List.isEmpty_eq_false_iff.mpr (List.length_pos_iff.mp hsize)

/-- The condition between a keyword and the header's end, for a header that has one. -/
def readHeader (rule : HeaderRule) (p : Phrase) : Except Error (Option Expr) :=
  match rule with
  | .condition =>
    let condition := p.slice 1 p.headerEnd
    if condition.isEmpty then p.refuse 0 (.conditionMissing (p.found 0))
    else some <$> Expr.read condition .value
  | .nothing =>
    if 1 < p.headerEnd then p.refuse 1 (.unexpectedInHeader (p.found 1)) else .ok none
  | .anything => .ok none

/-- `for` with what is bound, `in`, and what is gone through. -/
def readForHeader (p : Phrase) : Except Error Opening :=
  let header := p.take p.headerEnd
  match header.findOutside? "in" with
  | none => p.refuse 0 (.inMissing (p.found 0))
  | some pos =>
    let iterable := header.drop (pos + 1)
    if iterable.isEmpty then p.refuse 0 (.iterableMissing (p.found pos))
    else do
      let iterator ← Expr.readTarget (header.slice 1 pos) .binding
      return .forLoop iterator (← Expr.read iterable .value)

/-- A parameter: an identifier, perhaps with an equals sign and a default. -/
def readParameter (all p : Phrase) : Except Error Parameter :=
  let malformed := all.refuse 0 (.malformedParameter p.spelling (all.found 0))
  match p.tokens with
  | [t] => if t.kind = .identifier then .ok ⟨t.text, none⟩ else malformed
  | t :: _ :: _ :: _ =>
    if t.kind = .identifier ∧ p.hasText 1 "=" then
      (⟨t.text, some ·⟩) <$> Expr.read (p.drop 2) .value
    else malformed
  | _ => malformed

/-- `def` with a name and parameters in parentheses. -/
def readFunctionHeader (p : Phrase) : Except Error Opening :=
  match p.findOutside? Bracket.round.openerText with
  | none => p.refuse 0 (.parametersMissing (p.found 0))
  | some pos => do
    let name ← Expr.readTarget (p.slice 1 pos) .definition
    if name.identifier?.isNone then p.refuse 0 (.notFunctionName (p.slice 1 pos).spelling)
    else
      let all := p.slice (pos + 1) (← p.closerOf pos)
      return .function name (← (all.segments ",").mapM all.readParameter)

/-! ## Statements on one line -/

/-- A jump with its value, if there is one; `continue` has none. -/
def readJump (kind : Jump) (p : Phrase) : Except Error Stmt :=
  let value := p.drop 1
  if value.isEmpty then .ok (.jump kind none)
  else if kind = .continueLoop then p.refuse 0 (.valueAfterContinue (value.found 0))
  else (.jump kind <| some ·) <$> Expr.read value .value

/-- Where an assignment has its operator, and how its target is looked up. -/
def assignment? (p : Phrase) : Option (Nat × Lookup) :=
  match p.findOutside? "=" with
  | some pos => some (pos, .binding)
  | none => (p.findOutside? ":=").map (·, .rebinding)

theorem openerOf_le {pos first : Nat} {p : Phrase} (h : p.openerOf pos = .ok first) :
    first ≤ pos := by
  unfold openerOf at h
  split at h
  · cases h
  · split at h <;> cases h
    exact Nat.sub_le _ _

/-- The bracket groups that end before a position, read from right to left as indices; where they
begin comes with them. -/
def readIndices (p : Phrase) (last : Nat) (later : List Expr) : Except Error (Nat × List Expr) :=
  if hl : 0 < last ∧ p.hasText (last - 1) Bracket.square.closerText then
    match h : p.openerOf (last - 1) with
    | .error e => .error e
    | .ok first =>
      have : first < last := by have := openerOf_le h; omega
      match Expr.read (p.slice (first + 1) (last - 1)) .value with
      | .error e => .error e
      | .ok index => readIndices p first (index :: later)
  else .ok (last, later)
termination_by last

/-- One index is read, and then those before it. -/
theorem readIndices_unfold (p : Phrase) (last : Nat) (later : List Expr) :
    p.readIndices last later
      = if 0 < last ∧ p.hasText (last - 1) Bracket.square.closerText then do
          let first ← p.openerOf (last - 1)
          p.readIndices first ((← Expr.read (p.slice (first + 1) (last - 1)) .value) :: later)
        else .ok (last, later) := by
  rw [readIndices]
  split
  · split
    · next e he => rw [he]; rfl
    · next first he =>
      cases hindex : Expr.read (p.slice (first + 1) (last - 1)) .value <;>
        simp only [he, hindex, bind, Except.bind]
  · rfl

/-- An assignment whose operator stands at a position. -/
def readAssignmentAt (pos : Nat) (lookup : Lookup) (p : Phrase) : Except Error Stmt :=
  let value := p.drop (pos + 1)
  if value.isEmpty then p.refuse 0 (.assignedValueMissing (p.found pos))
  else do
    let (last, indices) ← p.readIndices pos []
    let target ← Expr.readTarget (p.take last) lookup
    return .assign target indices (← Expr.read value .value)

/-- An assignment, provided that there is an operator for it. -/
def readAssignment (p : Phrase) : Except Error Stmt :=
  match p.assignment? with
  | some (pos, lookup) => p.readAssignmentAt pos lookup
  | none => p.refuse 0 (.assignmentMissing p.spelling)

/-- A statement without a body, by what it begins with. -/
def readSimple (p : Phrase) : Except Error Stmt :=
  match p.textAt 0 with
  | "continue" => p.readJump .continueLoop
  | "break" => p.readJump .breakLoop
  | "return" => p.readJump .returnValue
  | "print" => .print <$> Expr.readList "," (p.drop 1)
  | _ =>
    if p.hasOutside "=" || p.hasOutside ":=" then p.readAssignment
    else .expression <$> Expr.read p .value

/-! ## The end of a block -/

/-- Does a block end here, at the end of the source or before `elif`, `else` or `end`? -/
def endsBlock (p : Phrase) : Bool :=
  p.isEmpty || p.startsWith "elif" || p.startsWith "else" || p.startsWith "end"

theorem isEmpty_eq_false_of_startsWith {p : Phrase} {text : String} (h : p.startsWith text) :
    p.isEmpty = false := by
  rw [startsWith, hasText] at h
  rw [isEmpty]
  cases htokens : p.tokens with
  | nil => simp [htokens] at h
  | cons t ts => rfl

theorem isEmpty_eq_false_of_endsBlock {p : Phrase} (h : ¬p.endsBlock) : p.isEmpty = false := by
  simp only [endsBlock, Bool.or_eq_true, not_or] at h
  exact Bool.eq_false_iff.mpr h.1.1.1

end Phrase

end ScriptReader

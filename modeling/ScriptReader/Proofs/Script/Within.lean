import ScriptReader.Proofs.Expr.Ordinary
import ScriptReader.Proofs.Phrase.Safe
import ScriptReader.Proofs.Script.Blocks

/-!
# Proofs/Script/Within — reading with every look-up checked

The rules for lines once more, where nothing is taken for granted.  A token is looked up only where
there is one, a bracket's partner is counted up to only while the level stays above zero, nothing is
taken from a position that is not there, and a phrase that is cut out of the statement `root` has to
be formed in it.  Where one of this fails, the error is that something is out of range.
`Script.readWithin` reads a script by these rules.
-/

namespace ScriptReader

open ScriptReader.Bracket

namespace Phrase

variable (root : Phrase)

/-! ## Checked look-ups -/

/-- The token at a position, which has to be within the phrase. -/
def tokenWithin (pos : Nat) (p : Phrase) : Except Error Token :=
  match p.tokens[pos]? with
  | some t => .ok t
  | none => .error (.outOfRange pos p.size)

/-- The position of the bracket that closes the one at a position, both of which have to be
there. -/
def closerWithin (pos : Nat) (p : Phrase) : Except Error Nat :=
  match Bracket.ofOpenerText? (p.textAt pos) with
  | none => .error (.outOfRange pos p.size)
  | some b =>
    match countPartner? b.openerText b.closerText 0 (p.tokens.drop pos) with
    | some k => .ok (pos + k)
    | none => .error (.outOfRange pos p.size)

/-- The position of the bracket that opens the one at a position, both of which have to be there. -/
def openerWithin (pos : Nat) (p : Phrase) : Except Error Nat :=
  match Bracket.ofCloserText? (p.textAt pos) with
  | none => .error (.outOfRange pos p.size)
  | some b =>
    match countPartner? b.closerText b.openerText 0 (p.tokens.take (pos + 1)).reverse with
    | some k => if k ≤ pos then .ok (pos - k) else .error (.outOfRange pos p.size)
    | none => .error (.outOfRange pos p.size)

open Classical in
/-- The phrase, which has to be formed where `root` is read. -/
noncomputable def formedWithin (p : Phrase) : Except Error Phrase :=
  if Formed root p then .ok p else .error (.outOfRange p.start root.size)

end Phrase

namespace Expr

variable (root : Phrase)

noncomputable def readTargetWithin (p : Phrase) (lookup : Lookup) : Except Error Expr := do
  let e ← readWithin root p lookup
  if e.isTarget then return e else p.refuse 0 (.notName p.spelling)

noncomputable def readListWithin (separator : String) (p : Phrase) : Except Error (List Expr) :=
  (p.segments separator).mapM (readWithin root · .value)

end Expr

/-! ## Headers -/

namespace Phrase

variable (root : Phrase)

noncomputable def inlineBodyWithin (p : Phrase) : Except Error (Option Phrase) :=
  match p.findOutside? ":" with
  | some colon =>
    if colon + 1 < p.size then some <$> root.formedWithin (p.drop (colon + 1)) else .ok none
  | none => .ok none

noncomputable def readHeaderWithin (rule : HeaderRule) (p : Phrase) :
    Except Error (Option Expr) :=
  match rule with
  | .condition => do
    let condition ← root.formedWithin (p.slice 1 p.headerEnd)
    if condition.isEmpty then p.refuse 0 (.conditionMissing (p.found 0))
    else some <$> Expr.readWithin root condition .value
  | .nothing =>
    if 1 < p.headerEnd then do
      let t ← p.tokenWithin 1
      p.refuse 1 (.unexpectedInHeader (.token t))
    else .ok none
  | .anything => .ok none

noncomputable def readConditionWithin (p : Phrase) : Except Error Expr := do
  match ← root.readHeaderWithin .condition p with
  | some condition => return condition
  | none => p.refuse 0 .branchConditionMissing

noncomputable def checkElseWithin (p : Phrase) : Except Error Unit :=
  discard (root.readHeaderWithin .nothing p)

noncomputable def readForHeaderWithin (p : Phrase) : Except Error Opening := do
  let header ← root.formedWithin (p.take p.headerEnd)
  match header.findOutside? "in" with
  | none => p.refuse 0 (.inMissing (p.found 0))
  | some pos =>
    let iterable ← root.formedWithin (header.drop (pos + 1))
    if iterable.isEmpty then p.refuse 0 (.iterableMissing (p.found pos))
    else
      let iterator ← Expr.readTargetWithin root (header.slice 1 pos) .binding
      return .forLoop iterator (← Expr.readWithin root iterable .value)

noncomputable def readParameterWithin (all p : Phrase) : Except Error Parameter :=
  let malformed := all.refuse 0 (.malformedParameter p.spelling (all.found 0))
  if p.isEmpty then malformed
  else do
    let t ← p.tokenWithin 0
    if t.kind = .identifier ∧ p.size = 1 then return ⟨t.text, none⟩
    else if t.kind = .identifier ∧ 3 ≤ p.size ∧ p.hasText 1 "=" then
      (⟨t.text, some ·⟩) <$> Expr.readWithin root (p.drop 2) .value
    else malformed

noncomputable def readFunctionHeaderWithin (p : Phrase) : Except Error Opening :=
  match p.findOutside? round.openerText with
  | none => p.refuse 0 (.parametersMissing (p.found 0))
  | some pos => do
    let name ← Expr.readTargetWithin root (p.slice 1 pos) .definition
    if name.identifier?.isNone then p.refuse 0 (.notFunctionName (p.slice 1 pos).spelling)
    else
      let all ← root.formedWithin (p.slice (pos + 1) (← p.closerWithin pos))
      return .function name (← (all.segments ",").mapM (root.readParameterWithin all))

/-! ## Statements on one line -/

noncomputable def readJumpWithin (kind : Jump) (p : Phrase) : Except Error Stmt := do
  let value ← root.formedWithin (p.drop 1)
  if value.isEmpty then .ok (.jump kind none)
  else if kind = .continueLoop then p.refuse 0 (.valueAfterContinue (value.found 0))
  else (.jump kind <| some ·) <$> Expr.readWithin root value .value

/-- The index groups before a position; the one before a group is looked for only where there is
one. -/
noncomputable def readIndicesWithin (p : Phrase) (last : Nat) (later : List Expr) :
    Except Error (Nat × List Expr) :=
  match last with
  | 0 => .ok (0, later)
  | pos + 1 =>
    if p.hasText pos square.closerText then do
      let first ← p.openerWithin pos
      if first ≤ pos then
        let index ← Expr.readWithin root (p.slice (first + 1) pos) .value
        p.readIndicesWithin first (index :: later)
      else .error (.outOfRange first p.size)
    else .ok (pos + 1, later)
termination_by last

noncomputable def readAssignmentAtWithin (pos : Nat) (lookup : Lookup) (p : Phrase) :
    Except Error Stmt := do
  let value ← root.formedWithin (p.drop (pos + 1))
  if value.isEmpty then p.refuse 0 (.assignedValueMissing (p.found pos))
  else
    let (last, indices) ← root.readIndicesWithin p pos []
    let target ← Expr.readTargetWithin root (p.take last) lookup
    return .assign target indices (← Expr.readWithin root value .value)

noncomputable def readAssignmentWithin (p : Phrase) : Except Error Stmt :=
  match p.assignment? with
  | some (pos, lookup) => root.readAssignmentAtWithin pos lookup p
  | none => p.refuse 0 (.assignmentMissing p.spelling)

end Phrase

/-! ## Lines -/

namespace Line

/-- A header and the body behind it on the same line. -/
noncomputable def ofHeaderWithin {α : Type} (root p : Phrase) (line : α → Option Phrase → Line)
    (header : Except Error α) : Except Error Line := do
  return line (← header) (← root.inlineBodyWithin p)

/-- Reads a statement of the source. -/
noncomputable def readWithin (root p : Phrase) : Except Error Line :=
  match p.textAt 0 with
  | "if" => ofHeaderWithin root p choice (root.readConditionWithin p)
  | "while" => ofHeaderWithin root p (opening <| .whileLoop ·) (root.readConditionWithin p)
  | "for" => ofHeaderWithin root p opening (root.readForHeaderWithin p)
  | "def" => ofHeaderWithin root p opening (root.readFunctionHeaderWithin p)
  | "continue" => complete <$> root.readJumpWithin .continueLoop p
  | "break" => complete <$> root.readJumpWithin .breakLoop p
  | "return" => complete <$> root.readJumpWithin .returnValue p
  | "print" => (complete <| .print ·) <$> Expr.readListWithin root "," (p.drop 1)
  | _ =>
    if p.hasOutside "=" || p.hasOutside ":=" then complete <$> root.readAssignmentWithin p
    else (complete <| .expression ·) <$> Expr.readWithin root p .value

end Line

/-! ## Blocks -/

namespace Blocks

/-- Reads a statement; what is left of the line has to be shorter. -/
noncomputable def beginWithin (root p : Phrase) (b : Blocks) : Except Error Blocks :=
  match Line.readWithin root p with
  | .error e => .error e
  | .ok (.complete s) => .ok (put s b.done b.frames)
  | .ok (.opening o none) => .ok (b.push (.block o []))
  | .ok (.opening o (some q)) =>
    if q.size < p.size then beginWithin root q (b.push (.awaiting o))
    else .error (.outOfRange q.size p.size)
  | .ok (.choice condition none) => .ok (b.push (.choice [] (some condition) false []))
  | .ok (.choice condition (some q)) =>
    if q.size < p.size then beginWithin root q (b.push (.choice [] (some condition) true []))
    else .error (.outOfRange q.size p.size)
termination_by p.size

noncomputable def beginBranchWithin (root : Phrase) (branches : List Branch)
    (condition : Option Expr) (p : Phrase) (b : Blocks) : Except Error Blocks := do
  match ← root.inlineBodyWithin p with
  | none => return b.push (.choice branches condition false [])
  | some q => beginWithin root q (b.push (.choice branches condition true []))

/-- Reads the next line of a script. -/
noncomputable def feedWithin (root p : Phrase) (b : Blocks) : Except Error Blocks :=
  match b.frames with
  | [] =>
    if isTerminator p then p.refuse 0 (.noMatchingBlock (p.found 0)) else b.beginWithin root p
  | .awaiting _ :: _ => b.beginWithin root p
  | .block o body :: outer =>
    if isTerminator p then close o.block (o.close body.reverse) p { b with frames := outer }
    else b.beginWithin root p
  | .choice branches condition isInline body :: outer =>
    let outer : Blocks := { b with frames := outer }
    let more :=
      if isTerminator p || (isInline && !body.isEmpty) then
        close .choice (closeChoice branches condition body) p outer
      else b.beginWithin root p
    match condition with
    | none => more
    | some c =>
      let branches := (c, body.reverse) :: branches
      if p.startsWith "elif" then do
        outer.beginBranchWithin root branches (some (← root.readConditionWithin p)) p
      else if p.startsWith "else" then do
        root.checkElseWithin p
        outer.beginBranchWithin root branches none p
      else more

end Blocks

/-! ## Scripts -/

/-- Reads on from a place in the source, every look-up being checked. -/
noncomputable def Source.scriptWithin (src : Source) (b : Blocks) : Except Error Script :=
  match src.scan.error? with
  | some e => .error e
  | none =>
    if h : src.scan.tokens = [] then b.finish src.scan.source.line
    else
      have : src.scan.source.rest.length < src.rest.length := src.length_scanFrom_lt _ _ h
      match b.feedWithin (.whole src.scan.tokens) (.whole src.scan.tokens) with
      | .error e => .error e
      | .ok b => scriptWithin src.scan.source b
termination_by src.rest.length

/-- Reads a script, every look-up being checked. -/
noncomputable def Script.readWithin (source : String) : Except Error Script :=
  (Source.ofString source).scriptWithin .empty

end ScriptReader

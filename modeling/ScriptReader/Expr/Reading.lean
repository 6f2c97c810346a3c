import ScriptReader.Expr.Lowest
import ScriptReader.Literal.Number
import ScriptReader.Literal.Text
import ScriptReader.Phrase.Segments
import ScriptReader.Tree

/-!
# Expr/Reading — the expression that a phrase writes

A phrase is divided at the operator that binds last, and its parts are read the same way; a phrase
without operators is one name or literal.  Each rule is given the reading of shorter phrases as a
function `Sub n`, where the bound `n` is what ends the recursion: `Expr.read_eq` is the equation
that ties the rules together.  How the names of an expression are looked up depends on where it
stands, and comes with the phrase as a `Lookup`.
-/

namespace ScriptReader

/-- The phrase without the parentheses that enclose all of it. -/
def Phrase.unwrap (p : Phrase) : Except Error Phrase :=
  match h : p.isEnclosed .round with
  | .error e => .error e
  | .ok false => .ok p
  | .ok true =>
    have : 0 < p.size := p.size_pos_of_isEnclosed h
    unwrap (p.trim 1)
termination_by p.size
decreasing_by exact size_trim_lt (by decide) this

theorem Phrase.size_unwrap_le {p q : Phrase} (h : p.unwrap = .ok q) : q.size ≤ p.size := by
  fun_induction unwrap p with
  | case1 => cases h
  | case2 => cases h; exact Nat.le_refl _
  | case3 p _ _ ih => exact Nat.le_trans (ih h) (size_trim_le 1 p)

namespace Expr

/-- The reading of phrases of fewer than `n` tokens. -/
abbrev Sub (n : Nat) := (p : Phrase) → p.size < n → Lookup → Except Error Expr

/-! ## Names and literals -/

/-- The expression that a single token writes. -/
def ofToken (t : Token) (p : Phrase) (lookup : Lookup) : Except Error Expr :=
  match t.kind with
  | .keyword =>
    if t.text = "True" then .ok (.constant (.boolean true))
    else if t.text = "False" then .ok (.constant (.boolean false))
    else if t.text = "None" then .ok .nothing
    else p.refuse 0 (.notOperand (p.found 0) t.kind)
  | .identifier => .ok (.name t.text lookup)
  | .apostropheString | .quotedString | .longString =>
    .ok (.text (Literal.textValue t.kind t.text))
  | .number =>
    match Literal.numberValue? t.text with
    | some x => .ok (.constant (.number x))
    | none => p.refuse 0 (.malformedNumber (p.found 0))
  | .unknown | .operator => p.refuse 0 (.notOperand (p.found 0) t.kind)

/-- The expression of a phrase without operators. -/
def ofOperand (p : Phrase) (lookup : Lookup) : Except Error Expr :=
  match p.tokens with
  | [] => p.refuse 0 (.expressionMissing p.firstLine)
  | [t] => ofToken t p lookup
  | _ :: _ :: _ => p.refuse 1 (.adjacentOperands (p.found 0) (p.found 1))

/-! ## Rules -/

variable {n : Nat}

/-- The expressions of several phrases, in order. -/
def readEach (sub : Sub n) :
    (ps : List Phrase) → (∀ p ∈ ps, p.size < n) → Except Error (List Expr)
  | [], _ => .ok []
  | p :: ps, h => do
    let e ← sub p (h p List.mem_cons_self) .value
    let es ← readEach sub ps fun q hq => h q (List.mem_cons_of_mem _ hq)
    return e :: es

/-- The expressions between separators. -/
def readSegments (sub : Sub n) (separator : String) (p : Phrase) (h : p.size < n) :
    Except Error (List Expr) :=
  readEach sub (p.segments separator) fun _ hq =>
    Nat.lt_of_le_of_lt (Phrase.size_le_of_mem_segments hq) h

/-- An array: its brackets enclose the whole phrase. -/
def readArray (sub : Sub n) (p : Phrase) (h : (p.trim 1).size < n) : Except Error Expr := do
  if !(← p.isEnclosed .square) then p.refuse 0 (.notEnclosed .array (p.found 0))
  else return .array (← readSegments sub "," (p.trim 1) h)

/-- The entries of a dictionary: a key and a value each, with a colon between them. -/
def readEntries (sub : Sub n) :
    (ps : List Phrase) → (∀ p ∈ ps, p.size < n) → Except Error (List (Expr × Expr))
  | [], _ => .ok []
  | p :: ps, h => do
    have hp := h p List.mem_cons_self
    match p.findOutside? ":" with
    | none => p.refuse 0 (.colonMissing p.spelling (p.found 0))
    | some colon =>
      let key ← sub (p.take colon) (Nat.lt_of_le_of_lt (p.size_slice_le _ _) hp) .value
      let value ← sub (p.drop (colon + 1))
        (Nat.lt_of_le_of_lt (p.size_slice_le _ _) hp) .value
      let entries ← readEntries sub ps fun q hq => h q (List.mem_cons_of_mem _ hq)
      return (key, value) :: entries

/-- A dictionary: its brackets enclose the whole phrase. -/
def readDictionary (sub : Sub n) (p : Phrase) (h : (p.trim 1).size < n) : Except Error Expr := do
  if !(← p.isEnclosed .curly) then p.refuse 0 (.notEnclosed .dictionary (p.found 0))
  else
    return .dictionary (← readEntries sub ((p.trim 1).segments ",") fun _ hq =>
      Nat.lt_of_le_of_lt (Phrase.size_le_of_mem_segments hq) h)

/-- The arguments of a call: those with a name, and the others, each in order. -/
def readArguments (sub : Sub n) :
    (ps : List Phrase) → (∀ p ∈ ps, p.size < n) → Except Error (List (Expr × Expr) × List Expr)
  | [], _ => .ok ([], [])
  | p :: ps, h => do
    have hp := h p List.mem_cons_self
    have hps := fun q hq => h q (List.mem_cons_of_mem _ hq)
    if p.hasOutside "=" then
      match p.tokens with
      | key :: _ :: _ :: _ =>
        if key.kind = .identifier ∧ p.hasText 1 "=" then
          let value ← sub (p.drop 2) (Nat.lt_of_le_of_lt (p.size_slice_le _ _) hp) .value
          let (named, others) ← readArguments sub ps hps
          return ((.text key.text, value) :: named, others)
        else p.refuse 0 (.malformedNamedArgument p.spelling)
      | _ => p.refuse 0 (.malformedNamedArgument p.spelling)
    else
      let e ← sub p hp .value
      let (named, others) ← readArguments sub ps hps
      return (named, e :: others)

/-- A call: what stands before the parentheses is called, unless it is the name of a built-in
function. -/
def readCall (sub : Sub n) (callee arguments : Phrase) (hc : callee.size < n)
    (ha : (arguments.trim 1).size < n) : Except Error Expr := do
  if !(← arguments.isEnclosed .round) then
    arguments.refuse 0 (.argumentsNotEnclosed (arguments.found 0))
  else
    let (named, others) ← readArguments sub ((arguments.trim 1).segments ",") fun _ hq =>
      Nat.lt_of_le_of_lt (Phrase.size_le_of_mem_segments hq) ha
    let arguments := .dictionary named :: others
    let builtIn? := if callee.size = 1 then BuiltIn.ofName? (callee.textAt 0) else none
    match builtIn? with
    | some function => return .builtIn function arguments
    | none => return .call (← sub callee hc .reference) arguments

/-- The operators that may do without a left operand. -/
def isSign (op : Operator) : Bool := op == .plus || op == .minus || op == .not

/-- An operator with its operands; the look-up goes on to the right one. -/
def readOperator (sub : Sub n) (op : Operator) (left right : Phrase) (hl : left.size < n)
    (hr : right.size < n) (lookup : Lookup) : Except Error Expr := do
  if right.isEmpty then left.refuse left.size (.operandMissing op)
  else if left.isEmpty then
    if isSign op then return .unary op (← sub right hr .value)
    else right.refuse 0 (.leftOperandMissing op)
  else if op = .not then right.refuse 0 (.misplacedNot left.spelling)
  else
    let l ← sub left hl (if op.assigns then .reference else .value)
    let r ← if op = .slice then .array <$> readSegments sub ":" right hr else sub right hr lookup
    return .binary op l r

/-- A phrase that no parentheses enclose. -/
def readUnwrapped (p : Phrase) (sub : Sub p.size) (lookup : Lookup) : Except Error Expr :=
  match h : p.lowest with
  | .error e => .error e
  | .ok none => ofOperand p lookup
  | .ok (some d) =>
    have hpos : 0 < p.size := Nat.zero_lt_of_lt (Phrase.size_left_lt h)
    if ha : d.op = .array then readArray sub p (Phrase.size_trim_lt (by decide) hpos)
    else if hd : d.op = .dictionary then
      readDictionary sub p (Phrase.size_trim_lt (by decide) hpos)
    else if hc : d.op = .call then
      readCall sub d.left d.right (Phrase.size_left_lt h)
        (Phrase.size_trim_lt_of_le (by decide) (Phrase.size_right_le h) hpos)
    else
      readOperator sub d.op d.left d.right (Phrase.size_left_lt h)
        (Phrase.size_right_lt h hc ha hd) lookup

/-- One step of reading: an empty phrase is nothing, and enclosing parentheses mean nothing. -/
def readStep (p : Phrase) (sub : Sub p.size) (lookup : Lookup) : Except Error Expr :=
  if p.isEmpty then .ok .nothing
  else
    match h : p.unwrap with
    | .error e => .error e
    | .ok q =>
      readUnwrapped q (fun r hr => sub r (Nat.lt_of_lt_of_le hr (Phrase.size_unwrap_le h))) lookup

/-! ## Reading expressions -/

/-- The expression that a phrase writes. -/
def read (p : Phrase) (lookup : Lookup) : Except Error Expr :=
  readStep p (fun q _ lookup => read q lookup) lookup
termination_by p.size

/-- **Reading is one step, with reading for the parts.** -/
theorem read_eq (p : Phrase) (lookup : Lookup) :
    read p lookup = readStep p (fun q _ lookup => read q lookup) lookup := by
  rw [read]

/-- The expressions between separators, read by value. -/
def readList (separator : String) (p : Phrase) : Except Error (List Expr) :=
  (p.segments separator).mapM (read · .value)

/-- What can be bound or assigned to: a name, or a member of something. -/
def isTarget : Expr → Bool
  | .name .. => true
  | .unary op _ => op == .member
  | .binary op _ _ => op == .member
  | _ => false

/-- Reads a phrase as something to bind or assign to. -/
def readTarget (p : Phrase) (lookup : Lookup) : Except Error Expr := do
  let e ← read p lookup
  if e.isTarget then return e else p.refuse 0 (.notName p.spelling)

end Expr

end ScriptReader

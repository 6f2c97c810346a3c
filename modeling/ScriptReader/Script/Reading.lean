import ScriptReader.Script.Session

/-!
# Script/Reading — scripts by recursive descent

Each of these readers is given a session with the statement that it reads, and leaves the session
behind what it has read.  Statements contain blocks, and blocks contain statements: `readBlock`
reads one statement after another and leaves the one that ends the block to its caller, which knows
whether `elif`, `else` or `end` may stand there, and a body on the same line as its header is read
as a statement of its own, to which the session has been narrowed.  With every statement there is
less left to read (`Answer.extent_lt`).
-/

namespace ScriptReader

/-- What came of reading, and where it stands now; unless it failed, less than `n` is left. -/
structure Answer (n : Nat) (α : Type) where
  result : Except Error α
  session : Session
  extent_lt : ∀ a, result = .ok a → session.extent < n

namespace Answer

variable {α β : Type} {m n : Nat}

def refuse (e : Error) (s : Session) : Answer n α := ⟨.error e, s, fun _ h => nomatch h⟩

def done (a : α) (s : Session) (h : s.extent < n) : Answer n α := ⟨.ok a, s, fun _ _ => h⟩

theorem lt_of_ok {a : α} {s : Session}
    (h : ∀ b, (.ok a : Except Error α) = .ok b → s.extent < n) : s.extent < n := h a rfl

/-- Goes on from where reading stands. -/
@[inline] def andThen (x : Answer m α) (f : α → (s : Session) → s.extent < m → Answer n β) :
    Answer n β :=
  match x with
  | ⟨.error e, s, _⟩ => refuse e s
  | ⟨.ok a, s, h⟩ => f a s (lt_of_ok h)

end Answer

/-- The body of a statement, with the condition in its header if there is one. -/
structure Body where
  condition : Option Expr
  statements : List Stmt
  /-- Does it stand on the same line as its header? -/
  isInline : Bool

namespace Session

variable {α : Type} {n : Nat}

/-! ## From statement to statement -/

theorem rest_lt_extent {s : Session} (hs : s.statement.isEmpty = false) :
    s.source.rest.length < s.extent :=
  Nat.lt_add_of_pos_right (Phrase.size_pos_of_not_isEmpty hs)

/-- Goes on to the next statement. -/
def goOn (a : α) (s : Session) (hs : s.source.rest.length < n) : Answer n α :=
  match h : s.nextStatement with
  | (.error e, s') => .refuse e s'
  | (.ok _, s') => .done a s' (Nat.lt_of_le_of_lt (extent_nextStatement_le h) hs)

/-- Requires `end` and nothing else, and goes on behind it. -/
def expectEnd (kind : BlockKind) (a : α) (s : Session) (hs : s.extent < n) : Answer n α :=
  let p := s.statement
  if p.isEmpty then .refuse (.script (.endMissing kind) s.source.line) s
  else if p.isOnly "end" then
    s.goOn a (Nat.lt_of_le_of_lt (Nat.le_add_right _ _) hs)
  else .refuse (.script (.notEnd kind (p.found 0)) p.firstLine) s

/-- What a loop or a function ends with: `end`, unless its body is on the line of its header. -/
def close (o : Opening) (body : Body) (s : Session) (hs : s.extent < n) : Answer n Stmt :=
  if body.isInline then .done (o.close body.statements) s hs
  else s.expectEnd o.block (o.close body.statements) hs

theorem extent_narrow_lt {s : Session} {p : Phrase} (h : s.statement.inlineBody? = some p) :
    (s.narrow p).extent < s.extent := by
  rw [extent, extent, statement_narrow h]
  exact Nat.add_lt_add_left (Phrase.size_inlineBody?_lt h) _

/-! ## Statements and blocks -/

mutual

/-- Reads statements up to the end of the block, which is left; the latest of those before come
first. -/
def readBlock {n : Nat} (s : Session) (hs : s.extent < n) (before : List Stmt) :
    Answer n (List Stmt) :=
  if hend : s.statement.endsBlock then .done before.reverse s hs
  else
    (s.readStatement (Phrase.isEmpty_eq_false_of_endsBlock hend)).andThen fun stmt s' hs' =>
      s'.readBlock (Nat.lt_trans hs' hs) (stmt :: before)
termination_by (s.extent, 5)

/-- Reads a statement, which ends no block even if it begins like one that does. -/
def readStatement (s : Session) (hs : s.statement.isEmpty = false) : Answer s.extent Stmt :=
  match s.statement.textAt 0 with
  | "if" => s.readChoice hs
  | "while" => s.readWhile hs
  | "for" => s.readOpening hs s.statement.readForHeader
  | "def" => s.readOpening hs s.statement.readFunctionHeader
  | _ =>
    match s.statement.readSimple with
    | .error e => .refuse e s
    | .ok stmt => s.goOn stmt (rest_lt_extent hs)
termination_by (s.extent, 4)

/-- Reads what is left of a header and the body behind it: the rest of the line, or the lines
below. -/
def readBody (rule : HeaderRule) (s : Session) (hs : s.statement.isEmpty = false) :
    Answer s.extent Body :=
  match s.statement.readHeader rule with
  | .error e => .refuse e s
  | .ok condition =>
    match hbody : s.statement.inlineBody? with
    | some p =>
      have hp : (s.narrow p).statement.isEmpty = false := by
        rw [statement_narrow hbody]
        exact Phrase.isEmpty_inlineBody? hbody
      ((s.narrow p).readStatement hp).andThen fun stmt s' hs' =>
        .done ⟨condition, [stmt], true⟩ s' (Nat.lt_trans hs' (extent_narrow_lt hbody))
    | none =>
      (s.goOn () (rest_lt_extent hs)).andThen fun _ below hbelow =>
        (below.readBlock hbelow []).andThen fun stmts s' hs' =>
          .done ⟨condition, stmts, false⟩ s' hs'
termination_by (s.extent, 0)
decreasing_by
  · exact .left _ _ (extent_narrow_lt hbody)
  · exact .left _ _ hbelow

/-- Reads a body with a condition. -/
def readBranch (s : Session) (hs : s.statement.isEmpty = false) :
    Answer s.extent (Expr × Body) :=
  (s.readBody .condition hs).andThen fun body s' hs' =>
    match body.condition with
    | some condition => .done (condition, body) s' hs'
    | none => .refuse (.script .branchConditionMissing s.statement.firstLine) s'
termination_by (s.extent, 1)

/-- Reads the further branches of a choice; the latest of those before come first. -/
def readBranches {n : Nat} (s : Session) (hs : s.extent < n) (before : List Branch) :
    Answer n (List Branch) :=
  if helif : s.statement.startsWith "elif" then
    (s.readBranch (Phrase.isEmpty_eq_false_of_startsWith helif)).andThen fun branch s' hs' =>
      s'.readBranches (Nat.lt_trans hs' hs) ((branch.1, branch.2.statements) :: before)
  else .done before.reverse s hs
termination_by (s.extent, 2)

/-- Reads what a choice does if no condition holds, if it says so. -/
def readElse {n : Nat} (s : Session) (hs : s.extent < n) :
    Answer n (Option (List Stmt)) :=
  if helse : s.statement.startsWith "else" then
    (s.readBody .nothing (Phrase.isEmpty_eq_false_of_startsWith helse)).andThen fun body s' hs' =>
      .done (some body.statements) s' (Nat.lt_trans hs' hs)
  else .done none s hs
termination_by (s.extent, 1)

/-- Reads a choice, which takes an `end` in any case. -/
def readChoice (s : Session) (hs : s.statement.isEmpty = false) : Answer s.extent Stmt :=
  (s.readBranch hs).andThen fun branch s' hs' =>
    (s'.readBranches hs' [(branch.1, branch.2.statements)]).andThen fun branches s' hs' =>
      (s'.readElse hs').andThen fun otherwise s' hs' =>
        s'.expectEnd .choice (.choice branches otherwise) hs'
termination_by (s.extent, 2)

/-- Reads a loop with a condition. -/
def readWhile (s : Session) (hs : s.statement.isEmpty = false) : Answer s.extent Stmt :=
  (s.readBranch hs).andThen fun branch s' hs' => s'.close (.whileLoop branch.1) branch.2 hs'
termination_by (s.extent, 2)

/-- Reads what begins with a header other than a condition. -/
def readOpening (s : Session) (hs : s.statement.isEmpty = false) (header : Except Error Opening) :
    Answer s.extent Stmt :=
  match header with
  | .error e => .refuse e s
  | .ok o => (s.readBody .anything hs).andThen fun body s' hs' => s'.close o body hs'
termination_by (s.extent, 1)

end

/-! ## Scripts -/

/-- Reads a script from its first statement on, which nothing may be left of. -/
def readScript (s : Session) : Except Error Script × Session :=
  match s.nextStatement with
  | (.error e, s') => (.error e, s')
  | (.ok count, s') =>
    if 0 < count then
      let x := s'.readBlock (Nat.lt_succ_self _) []
      match x.result with
      | .error e => (.error e, x.session)
      | .ok script =>
        let p := x.session.statement
        if p.isEmpty then (.ok script, x.session)
        else (p.refuse 0 (.noMatchingBlock (p.found 0)), x.session)
    else (.ok [], s')

/-- Reads a script; afterwards there are no tokens, and none to be read. -/
def read (source : String) (s : Session) : Except Error Script × Session :=
  let (result, s) := readScript { s with source := .ofString source }
  (result, { s with store := s.store.clear, first := 0, last := 0 })

end Session

/-- Reads a script in a session of its own. -/
def Script.read (source : String) : Except Error Script := (Session.new.read source).1

end ScriptReader

import ScriptReader.Script.Session

/-!
# Proofs/Script/Blocks — statements line by line

The same statements, read without descending into bodies.  The statements whose bodies are still
being read are a stack of frames.  A line that is a statement in itself goes to the innermost frame;
one that opens a body becomes a frame; `elif` and `else` begin the next branch of the innermost
choice, and `end` closes the innermost frame.  A body on the same line as its header is one
statement, after which a loop or a function is complete at once, while a choice still waits for its
`end`.
-/

namespace ScriptReader

/-! ## Lines -/

/-- A statement of the source.  A body that follows on the same line is left over. -/
inductive Line where
  | complete (s : Stmt)
  | opening (o : Opening) (body : Option Phrase)
  /-- The first branch of a choice. -/
  | choice (condition : Expr) (body : Option Phrase)
  deriving Repr

namespace Phrase

/-- The condition of a header that has one. -/
def readCondition (p : Phrase) : Except Error Expr := do
  match ← p.readHeader .condition with
  | some condition => return condition
  | none => p.refuse 0 .branchConditionMissing

/-- A header that is asked for a condition has one. -/
theorem exists_of_readHeader_condition {p : Phrase} {c : Option Expr}
    (h : p.readHeader .condition = .ok c) : ∃ e, c = some e := by
  rw [readHeader] at h
  split at h
  · cases h
  · cases hread : Expr.read (p.slice 1 p.headerEnd) .value with
    | error e => rw [hread] at h; cases h
    | ok e => rw [hread] at h; exact ⟨e, (Except.ok.inj h).symm⟩

/-- Refuses tokens between `else` and the header's end. -/
def checkElse (p : Phrase) : Except Error Unit := discard (p.readHeader .nothing)

end Phrase

/-- Reads a statement of the source. -/
def Line.read (p : Phrase) : Except Error Line :=
  match p.textAt 0 with
  | "if" => (Line.choice · p.inlineBody?) <$> p.readCondition
  | "while" => (fun c => opening (.whileLoop c) p.inlineBody?) <$> p.readCondition
  | "for" => (opening · p.inlineBody?) <$> p.readForHeader
  | "def" => (opening · p.inlineBody?) <$> p.readFunctionHeader
  | "continue" => complete <$> p.readJump .continueLoop
  | "break" => complete <$> p.readJump .breakLoop
  | "return" => complete <$> p.readJump .returnValue
  | "print" => (complete <| .print ·) <$> Expr.readList "," (p.drop 1)
  | _ =>
    if p.hasOutside "=" || p.hasOutside ":=" then complete <$> p.readAssignment
    else (complete <| .expression ·) <$> Expr.read p .value

/-- What a line leaves over is what follows its header's colon. -/
theorem Line.inlineBody?_eq {p q : Phrase} {l : Line} (h : Line.read p = .ok l)
    (hq : (∃ o, l = .opening o (some q)) ∨ ∃ c, l = .choice c (some q)) :
    p.inlineBody? = some q := by
  have map_eq {α : Type} {f : α → Line} {x : Except Error α} (hx : f <$> x = .ok l) :
      ∃ a, f a = l := by
    cases x with
    | error e => cases hx
    | ok a => exact ⟨a, Except.ok.inj hx⟩
  unfold Line.read at h
  split at h
  case h_9 =>
    split at h <;> obtain ⟨a, rfl⟩ := map_eq h <;> simp at hq
  all_goals
    obtain ⟨a, rfl⟩ := map_eq h
    simp only [reduceCtorEq, exists_false, or_false, false_or, Line.opening.injEq,
      Line.choice.injEq, exists_eq_left'] at hq
  all_goals exact hq

/-- It is shorter than the line. -/
theorem Line.size_body_lt {p q : Phrase} {l : Line} (h : Line.read p = .ok l)
    (hq : (∃ o, l = .opening o (some q)) ∨ ∃ c, l = .choice c (some q)) : q.size < p.size :=
  Phrase.size_inlineBody?_lt (Line.inlineBody?_eq h hq)

/-! ## Open statements -/

/-- A statement whose body is being read, the latest statements of the body first. -/
inductive Frame where
  /-- Its body comes on lines of its own, up to `end`. -/
  | block (o : Opening) (body : List Stmt)
  /-- Its body is the next statement. -/
  | awaiting (o : Opening)
  /-- A choice with its earlier branches, the latest first, and the branch being read, which has no
  condition after `else`.  An inline branch takes one statement. -/
  | choice (branches : List Branch) (condition : Option Expr) (isInline : Bool) (body : List Stmt)
  deriving Repr

/-- The kind of block that `end` has to close. -/
def Frame.kind : Frame → BlockKind
  | block o _ => o.block
  | awaiting o => o.block
  | choice .. => .choice

/-- The choice that ends with the branch being read. -/
def closeChoice (branches : List Branch) (condition : Option Expr) (body : List Stmt) : Stmt :=
  match condition with
  | some c => .choice ((c, body.reverse) :: branches).reverse none
  | none => .choice branches.reverse (some body.reverse)

/-- What has been read of a script. -/
structure Blocks where
  /-- The open statements, the innermost first. -/
  frames : List Frame
  /-- The statements outside all blocks, the latest first. -/
  done : List Stmt
  deriving Repr

namespace Blocks

/-- Nothing has been read. -/
def empty : Blocks := ⟨[], []⟩

def push (f : Frame) (b : Blocks) : Blocks := { b with frames := f :: b.frames }

/-- Adds a complete statement to the innermost body, which completes the frames that waited for
it. -/
def put (s : Stmt) (done : List Stmt) : List Frame → Blocks
  | [] => ⟨[], s :: done⟩
  | .block o body :: frames => ⟨.block o (s :: body) :: frames, done⟩
  | .awaiting o :: frames => put (o.close [s]) done frames
  | .choice branches condition isInline body :: frames =>
    ⟨.choice branches condition isInline (s :: body) :: frames, done⟩

/-- Reads a statement, which is no terminator even if it begins like one. -/
def begin (p : Phrase) (b : Blocks) : Except Error Blocks :=
  match _h : Line.read p with
  | .error e => .error e
  | .ok (.complete s) => .ok (put s b.done b.frames)
  | .ok (.opening o none) => .ok (b.push (.block o []))
  | .ok (.opening o (some q)) => begin q (b.push (.awaiting o))
  | .ok (.choice condition none) => .ok (b.push (.choice [] (some condition) false []))
  | .ok (.choice condition (some q)) => begin q (b.push (.choice [] (some condition) true []))
termination_by p.size
decreasing_by
  · exact Line.size_body_lt _h (.inl ⟨_, rfl⟩)
  · exact Line.size_body_lt _h (.inr ⟨_, rfl⟩)

/-- Begins a branch of a choice, whose body may follow on the same line. -/
def beginBranch (branches : List Branch) (condition : Option Expr) (p : Phrase) (b : Blocks) :
    Except Error Blocks :=
  match p.inlineBody? with
  | none => .ok (b.push (.choice branches condition false []))
  | some q => begin q (b.push (.choice branches condition true []))

/-- Does the line end the body before it? -/
def isTerminator (p : Phrase) : Bool :=
  p.startsWith "elif" || p.startsWith "else" || p.startsWith "end"

/-- Puts a closed statement in place, provided that the line is `end` and nothing else. -/
def close (kind : BlockKind) (s : Stmt) (p : Phrase) (b : Blocks) : Except Error Blocks :=
  if p.isOnly "end" then .ok (put s b.done b.frames) else p.refuse 0 (.notEnd kind (p.found 0))

/-- Reads the next line of a script. -/
def feed (p : Phrase) (b : Blocks) : Except Error Blocks :=
  match b.frames with
  | [] => if isTerminator p then p.refuse 0 (.noMatchingBlock (p.found 0)) else b.begin p
  | .awaiting _ :: _ => b.begin p
  | .block o body :: outer =>
    if isTerminator p then close o.block (o.close body.reverse) p { b with frames := outer }
    else b.begin p
  | .choice branches condition isInline body :: outer =>
    let outer : Blocks := { b with frames := outer }
    let more :=
      if isTerminator p || (isInline && !body.isEmpty) then
        close .choice (closeChoice branches condition body) p outer
      else b.begin p
    match condition with
    | none => more
    | some c =>
      let branches := (c, body.reverse) :: branches
      if p.startsWith "elif" then do
        beginBranch branches (some (← p.readCondition)) p outer
      else if p.startsWith "else" then do
        p.checkElse
        beginBranch branches none p outer
      else more

/-- The script, at whose end no block may be open. -/
def finish (line : Nat) (b : Blocks) : Except Error Script :=
  match b.frames with
  | [] => .ok b.done.reverse
  | f :: _ => .error (.script (.endMissing f.kind) line)

end Blocks

/-! ## All lines of a source -/

/-- Reads on from a place in the source, with what has been read so far. -/
def Source.readFrom (src : Source) (store : Store) (b : Blocks) : Except Error Script × Store :=
  let scan := src.scan
  let store := store.hold scan
  match scan.error? with
  | some e => (.error e, store)
  | none =>
    if h : scan.tokens = [] then (b.finish scan.source.line, store)
    else
      have : scan.source.rest.length < src.rest.length := src.length_scanFrom_lt _ _ h
      match b.feed (.whole store.tokens) with
      | .error e => (.error e, store)
      | .ok b => readFrom scan.source store b
termination_by src.rest.length

end ScriptReader

import ScriptReader.Diagnostic
import ScriptReader.Text.Bytes

/-!
# Store — tokens whose texts share growing pools

A store keeps the texts of its tokens in pools, one after another, and of a token itself only where
its text is.  One token at a time may be *forming*: `start` begins it, `append` adds to its text,
`classify` names its kind and `finish` adds it to the finished entries.  A forming token that fills
its pool moves to one with room, and it is the only one that ever moves.  `clear` forgets the tokens
but keeps the pools, so that they serve again.
-/

namespace ScriptReader

open ScriptReader.Text

/-! ## Pools -/

/-- A stretch of text in which tokens lie one after another. -/
structure Pool where
  text : String
  /-- How many bytes the pool may hold. -/
  size : Nat
  /-- How many bytes belong to finished tokens. -/
  filled : Nat
  deriving DecidableEq, Repr, Inhabited

namespace Pool

/-- The size of a pool that has to hold `minimum` bytes more than usual. -/
def sizeFor (minimum : Nat) : Nat := max (1024 + minimum) (2 * minimum)

/-- An empty pool with room for `minimum` bytes. -/
def withRoom (minimum : Nat) : Pool := ⟨"", sizeFor minimum, 0⟩

/-- How many bytes finished tokens leave. -/
def free (p : Pool) : Nat := p.size - p.filled

/-- No text, and room for `minimum` bytes. -/
def enlarge (minimum : Nat) (p : Pool) : Pool := { p with text := "", size := sizeFor minimum }

/-- No tokens and no text. -/
def reset (p : Pool) : Pool := { p with text := "", filled := 0 }

def push (c : Char) (p : Pool) : Pool := { p with text := p.text.push c }

def write (s : String) (p : Pool) : Pool := { p with text := p.text ++ s }

/-- The text between two byte positions. -/
def slice (first last : Nat) (p : Pool) : String :=
  String.ofList ((slice? first last p.text.toList).getD [])

/-- Only the first `n` bytes of the text. -/
def truncate (n : Nat) (p : Pool) : Pool := { p with text := p.slice 0 n }

/-- Counts `n` more bytes to finished tokens. -/
def fill (n : Nat) (p : Pool) : Pool := { p with filled := p.filled + n }

end Pool

/-! ## Entries and the store -/

/-- Where a token's text lies, and what is known of the token besides. -/
structure Entry where
  pool : Nat
  first : Nat
  /-- The position after the last byte. -/
  last : Nat
  kind : Kind
  line : Nat
  deriving DecidableEq, Repr, Inhabited

namespace Entry

/-- The number of bytes of the text. -/
def size (e : Entry) : Nat := e.last - e.first

def isEmpty (e : Entry) : Bool := e.first == e.last

/-- The same length of text elsewhere. -/
def moveTo (pool first : Nat) (e : Entry) : Entry :=
  { e with pool := pool, first := first, last := first + e.size }

end Entry

/-- Finished tokens in order, perhaps a forming one, and the pools that hold their texts. -/
structure Store where
  pools : Array Pool
  entries : Array Entry
  forming : Option Entry
  /-- The pool in which tokens are formed; past the last pool while there is none. -/
  current : Nat
  deriving Inhabited

namespace Store

/-- A store without tokens or pools. -/
def empty : Store := ⟨#[], #[], none, 0⟩

/-- Forgets all tokens; the pools remain, emptied. -/
def clear (s : Store) : Store := ⟨s.pools.map Pool.reset, #[], none, 0⟩

/-- Goes on to the first pool with more than `minimum` bytes free: from the current one on, an empty
pool is enlarged where it is, and after the last one comes a new one. -/
def makeRoom (minimum : Nat) (s : Store) : Store :=
  if h : s.current < s.pools.size then
    if minimum < s.pools[s.current].free then s
    else if s.pools[s.current].filled = 0 then
      { s with pools := s.pools.modify s.current (Pool.enlarge minimum) }
    else makeRoom minimum { s with current := s.current + 1 }
  else { s with pools := s.pools.push (Pool.withRoom minimum) }
termination_by s.pools.size - s.current

/-- How many bytes of the current pool belong to finished tokens. -/
def currentFilled (s : Store) : Nat := (s.pools[s.current]?.map Pool.filled).getD 0

/-- The text of an entry, as the pools are now. -/
def text (e : Entry) (s : Store) : String :=
  (s.pools[e.pool]?.map (Pool.slice e.first e.last)).getD ""

/-! ## Forming a token -/

/-- Begins a token on a line.  One that was forming loses its text and begins anew where it is. -/
def start (line : Nat) (s : Store) : Store :=
  match s.forming with
  | some e =>
    { s with
      pools := s.pools.modify e.pool (Pool.truncate e.first)
      forming := some { e with last := e.first, kind := .unknown, line := line } }
  | none =>
    let s := s.makeRoom 0
    { s with forming := some ⟨s.current, s.currentFilled, s.currentFilled, .unknown, line⟩ }

/-- Moves the forming token, which has filled its pool, to one with room. -/
def moveForming (e : Entry) (s : Store) : Store :=
  let text := s.text e
  let s := makeRoom e.size { s with pools := s.pools.modify e.pool (Pool.truncate e.first) }
  { s with
    pools := s.pools.modify s.current (Pool.write text)
    forming := some (e.moveTo s.current s.currentFilled) }

/-- Adds a character to the forming token's text. -/
def append (c : Char) (s : Store) : Store :=
  match s.forming with
  | none => s
  | some e =>
    let e := { e with last := e.last + c.utf8Size }
    let s := { s with pools := s.pools.modify e.pool (Pool.push c), forming := some e }
    if e.last < (s.pools[e.pool]?.map Pool.size).getD 0 then s else s.moveForming e

/-- Names the forming token's kind. -/
def classify (kind : Kind) (s : Store) : Store :=
  { s with forming := s.forming.map ({ · with kind := kind }) }

/-- Adds the forming token, if there is one, to the finished ones. -/
def finish (s : Store) : Store :=
  match s.forming with
  | none => s
  | some e =>
    { s with
      pools := s.pools.modify e.pool (Pool.fill e.size)
      entries := s.entries.push e
      forming := none }

/-- Begins a token and adds a whole text to it. -/
def form (line : Nat) (text : List Char) (s : Store) : Store :=
  text.foldl (fun s c => s.append c) (s.start line)

/-- Forms and finishes a token. -/
def add (t : Token) (s : Store) : Store := ((s.form t.line t.text.toList).classify t.kind).finish

/-! ## Reading -/

/-- The number of finished tokens. -/
def size (s : Store) : Nat := s.entries.size

def isEmpty (s : Store) : Bool := s.entries.isEmpty

def isForming (s : Store) : Bool := s.forming.isSome

def poolCount (s : Store) : Nat := s.pools.size

/-- A finished entry by its place in the order. -/
def entry (i : Nat) (s : Store) : Except Error Entry :=
  match s.entries[i]? with
  | some e => .ok e
  | none => .error (.outOfRange i s.size)

/-- The most recently finished entry. -/
def latest? (s : Store) : Option Entry := s.entries.back?

/-- An entry with its text. -/
def token (e : Entry) (s : Store) : Token := ⟨e.kind, s.text e, e.line⟩

/-- The finished tokens in order. -/
def tokens (s : Store) : List Token := s.entries.toList.map s.token

/-- The forming token as it stands. -/
def unfinished? (s : Store) : Option Token := s.forming.map s.token

/-! ## Entries -/

@[simp] theorem entries_makeRoom (n : Nat) (s : Store) : (s.makeRoom n).entries = s.entries := by
  fun_induction makeRoom n s with
  | case3 _ _ _ _ ih => exact ih
  | _ => rfl

@[simp] theorem entries_start (line : Nat) (s : Store) : (s.start line).entries = s.entries := by
  unfold start
  split
  · rfl
  · exact entries_makeRoom 0 s

@[simp] theorem entries_append (c : Char) (s : Store) : (s.append c).entries = s.entries := by
  unfold append
  split
  · rfl
  · dsimp only
    split
    · rfl
    · exact entries_makeRoom _ _

@[simp] theorem entries_form (line : Nat) (text : List Char) (s : Store) :
    (s.form line text).entries = s.entries := by
  refine List.foldlRecOn text (motive := fun s' : Store => s'.entries = s.entries) _
    (entries_start line s) fun s' h c _ => ?_
  rw [entries_append, h]

/-- Only a finished token is an entry. -/
theorem size_add_le (t : Token) (s : Store) : (s.add t).size ≤ s.size + 1 := by
  rw [add, finish, classify]
  split
  · rw [size, entries_form]
    exact Nat.le_succ _
  · rw [size, Array.size_push, entries_form]
    exact Nat.le_refl _

end Store

end ScriptReader

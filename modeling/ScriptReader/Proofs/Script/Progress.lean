import Mathlib.Data.Prod.Lex
import Mathlib.Logic.Relation
import ScriptReader.Proofs.Expr.Recursion
import ScriptReader.Proofs.Script.Statements
import ScriptReader.Proofs.Source.Breaks

/-!
# Proofs/Script/Progress — reading goes forward with every step, and comes to an end

Reading is taken apart into steps: each reads what stands at a cursor, be that a statement on a line
of its own, the body behind a header's colon, the header of a further branch or an `end`, and puts
the cursor before what is read next (`Cursor.next`).  A step leaves fewer characters to be read, or
as many and fewer tokens of the statement (`Cursor.size_lt_of_leads`).  The scanner goes forward
with every move as well (`Source.consumes_move`), and so does the reading of expressions, to shorter
phrases (`Phrase.size_lt_of_mem_asked`).  `Script.reading_ends` is all of this about a whole script.
-/

namespace ScriptReader

/-! ## The scanner -/

/-- Where the scanner goes on behind a move. -/
def Move.next : Move → Source
  | skip next | form _ _ _ next | stop next _ => next

/-- What a move fails with, if it fails. -/
def Move.flaw : Move → Option Flaw
  | skip _ | form .. => none
  | stop _ flaw => flaw

namespace Source

variable {open_ : Brackets} {begun : Bool} {src : Source}

/-- **Every move of the scanner takes a character off the source, or fails**; at the end of the
source there is no other move. -/
theorem consumes_move (hrest : src.rest ≠ []) (h : (src.move open_ begun).flaw = none) :
    ∃ text, text ≠ [] ∧ src.rest = text ++ (src.move open_ begun).next.rest := by
  have hmoves := src.moves_move open_ begun
  have hconsumes {piece : Piece} {rest : List Char}
      (hpiece : piece? src.rest = some (piece, rest)) :
      ∃ text, text ≠ [] ∧ src.rest = text ++ rest :=
    ⟨piece.text, text_ne_nil_of_piece? hpiece, (text_append_of_piece? hpiece).symm⟩
  generalize src.move open_ begun = m at hmoves h ⊢
  cases hmoves with
  | blank hpiece => exact hconsumes hpiece
  | separator hpiece => exact hconsumes hpiece
  | lexeme hpiece => exact hconsumes hpiece
  | finished hpiece => exact hconsumes hpiece
  | ended hnil => exact absurd hnil hrest
  | unclosed | unexpected | unbalanced | brokenContinuation | brokenString => cases h

end Source

/-! ## Steps -/

namespace Blocks

/-- Reads a statement up to its body on the same line, which is left over. -/
def enter (p : Phrase) (b : Blocks) : Except Error (Blocks × Option Phrase) :=
  (fun
    | .complete s => (put s b.done b.frames, none)
    | .opening o none => (b.push (.block o []), none)
    | .opening o (some q) => (b.push (.awaiting o), some q)
    | .choice condition none => (b.push (.choice [] (some condition) false []), none)
    | .choice condition (some q) => (b.push (.choice [] (some condition) true []), some q))
      <$> Line.read p

/-- Reads a branch's header up to its body on the same line. -/
def enterBranch (branches : List Branch) (condition : Option Expr) (p : Phrase) (b : Blocks) :
    Blocks × Option Phrase :=
  match p.inlineBody? with
  | none => (b.push (.choice branches condition false []), none)
  | some q => (b.push (.choice branches condition true []), some q)

/-- Reads a line up to its body on the same line. -/
def advance (p : Phrase) (b : Blocks) : Except Error (Blocks × Option Phrase) :=
  match b.frames with
  | [] => if isTerminator p then p.refuse 0 (.noMatchingBlock (p.found 0)) else b.enter p
  | .awaiting _ :: _ => b.enter p
  | .block o body :: outer =>
    if isTerminator p then
      (·, none) <$> close o.block (o.close body.reverse) p { b with frames := outer }
    else b.enter p
  | .choice branches condition isInline body :: outer =>
    let outer : Blocks := { b with frames := outer }
    let more :=
      if isTerminator p || (isInline && !body.isEmpty) then
        (·, none) <$> close .choice (closeChoice branches condition body) p outer
      else b.enter p
    match condition with
    | none => more
    | some c =>
      let branches := (c, body.reverse) :: branches
      if p.startsWith "elif" then
        (fun condition => enterBranch branches (some condition) p outer) <$> p.readCondition
      else if p.startsWith "else" then
        (fun _ => enterBranch branches none p outer) <$> p.checkElse
      else more

/-- Goes on with the body that is left over, if there is one. -/
def resume : Blocks × Option Phrase → Except Error Blocks
  | (b, none) => .ok b
  | (b, some q) => b.begin q

theorem begin_eq_enter (p : Phrase) (b : Blocks) : b.begin p = (b.enter p).bind resume := by
  rw [begin_eq, enter]
  cases Line.read p with
  | error e => rfl
  | ok l => rcases l with s | ⟨o, _ | q⟩ | ⟨condition, _ | q⟩ <;> rfl

theorem beginBranch_eq (branches : List Branch) (condition : Option Expr) (p : Phrase)
    (b : Blocks) :
    b.beginBranch branches condition p = resume (b.enterBranch branches condition p) := by
  rw [beginBranch, enterBranch]
  cases p.inlineBody? <;> rfl

/-- **Reading a line is reading it up to its body and going on with that.** -/
theorem feed_eq_advance (p : Phrase) (b : Blocks) : b.feed p = (b.advance p).bind resume := by
  have hclosed (x : Except Error Blocks) :
      ((·, (none : Option Phrase)) <$> x).bind resume = x := by cases x <;> rfl
  have hmore {ends : Bool} (x : Except Error Blocks) :
      (if ends then x else b.begin p)
        = (if ends then (·, none) <$> x else b.enter p).bind resume := by
    split
    · exact (hclosed _).symm
    · exact begin_eq_enter p b
  obtain ⟨_ | ⟨f, outer⟩, done⟩ := b
  · rw [feed, advance]
    dsimp only
    split
    · rfl
    · exact begin_eq_enter p _
  cases f with
  | block o body => exact hmore _
  | awaiting o => exact begin_eq_enter p _
  | choice branches condition isInline body =>
    rw [feed, advance]
    cases condition with
    | none => exact hmore _
    | some c =>
      dsimp only
      split
      · cases p.readCondition with
        | error e => rfl
        | ok condition => exact beginBranch_eq _ _ _ _
      split
      · cases p.checkElse with
        | error e => rfl
        | ok u => exact beginBranch_eq _ _ _ _
      · exact hmore _

/-! What is left over is what stands behind the colon. -/

theorem inlineBody?_of_enter {p q : Phrase} {b b' : Blocks} (h : b.enter p = .ok (b', some q)) :
    p.inlineBody? = some q := by
  rw [enter] at h
  cases hline : Line.read p with
  | error e =>
    rw [hline] at h
    cases h
  | ok l =>
    rw [hline] at h
    refine Line.inlineBody?_eq hline ?_
    rcases l with s | ⟨o, _ | r⟩ | ⟨condition, _ | r⟩ <;> cases h
    · exact .inl ⟨o, rfl⟩
    · exact .inr ⟨condition, rfl⟩

theorem snd_enterBranch (branches : List Branch) (condition : Option Expr) (p : Phrase)
    (b : Blocks) : (b.enterBranch branches condition p).2 = p.inlineBody? := by
  rw [enterBranch]
  cases p.inlineBody? <;> rfl

theorem inlineBody?_of_advance {p q : Phrase} {b b' : Blocks}
    (h : b.advance p = .ok (b', some q)) : p.inlineBody? = some q := by
  have hclosed {x : Except Error Blocks} (hx : (·, none) <$> x = .ok (b', some q)) : False := by
    cases x <;> cases hx
  have hbranch {α : Type} {x : Except Error α} {f : α → Blocks × Option Phrase}
      (hx : f <$> x = .ok (b', some q)) (hf : ∀ a, (f a).2 = p.inlineBody?) :
      p.inlineBody? = some q := by
    cases x with
    | error e => cases hx
    | ok a => rw [← hf a, Except.ok.inj hx]
  have hmore {ends : Bool} {x : Except Error Blocks}
      (hx : (if ends then (·, none) <$> x else b.enter p) = .ok (b', some q)) :
      p.inlineBody? = some q := by
    split at hx
    · exact (hclosed hx).elim
    · exact inlineBody?_of_enter hx
  obtain ⟨_ | ⟨f, outer⟩, done⟩ := b
  · rw [advance] at h
    dsimp only at h
    split at h
    · cases h
    · exact inlineBody?_of_enter h
  cases f with
  | block o body => exact hmore h
  | awaiting o => exact inlineBody?_of_enter h
  | choice branches condition isInline body =>
    rw [advance] at h
    cases condition with
    | none => exact hmore h
    | some c =>
      dsimp only at h
      split at h
      · exact hbranch h fun _ => snd_enterBranch _ _ _ _
      split at h
      · exact hbranch h fun _ => snd_enterBranch _ _ _ _
      · exact hmore h

end Blocks

/-! ## Cursors -/

/-- Where reading has got to. -/
structure Cursor where
  /-- What is behind the statement. -/
  source : Source
  /-- What is left of the statement; at the end of the source it is empty. -/
  left : Phrase
  /-- Is it the body behind the colon of a header? -/
  isBody : Bool
  blocks : Blocks

namespace Cursor

/-- Fetches the next statement of a source. -/
def fetch (src : Source) (b : Blocks) : Except Error Cursor :=
  match src.scan.error? with
  | some e => .error e
  | none => .ok ⟨src.scan.source, .whole src.scan.tokens, false, b⟩

/-- Reads what is left of the statement, up to a body behind it. -/
def readLeft (c : Cursor) : Except Error (Blocks × Option Phrase) :=
  if c.isBody then c.blocks.enter c.left else c.blocks.advance c.left

/-- Reads what is left of the statement and goes to the body behind it, or to the next statement. -/
def next (c : Cursor) : Except Error Cursor :=
  c.readLeft.bind fun
    | (b, some q) => .ok ⟨c.source, q, true, b⟩
    | (b, none) => fetch c.source b

/-- One cursor leads to another by a step; there is none from the empty statement. -/
def Steps (c c' : Cursor) : Prop := c.left.isEmpty = false ∧ c.next = .ok c'

/-- One cursor leads to another by one step or more. -/
abbrev Leads : Cursor → Cursor → Prop := Relation.TransGen Steps

/-- What there is to be read: the characters behind the statement, then the tokens of it. -/
def size (c : Cursor) : Nat ×ₗ Nat := toLex (c.source.rest.length, c.left.size)

/-- How many steps there can be: one for each of these characters and tokens. -/
def bound (c : Cursor) : Nat := c.source.rest.length + c.left.size

variable {c c' : Cursor} {src : Source} {b : Blocks}

theorem eq_of_fetch (h : fetch src b = .ok c) :
    src.scan.flaw = none ∧ c = ⟨src.scan.source, .whole src.scan.tokens, false, b⟩ := by
  rw [fetch, Scan.error?] at h
  cases hflaw : src.scan.flaw with
  | some flaw =>
    rw [hflaw] at h
    cases h
  | none =>
    rw [hflaw] at h
    exact ⟨rfl, (Except.ok.inj h).symm⟩

/-- **What a step comes to**: a body further on in the statement, or the next statement. -/
theorem cases_of_next (h : c.next = .ok c') :
    (c'.source = c.source ∧ c.left.inlineBody? = some c'.left)
      ∨ ∃ b, fetch c.source b = .ok c' := by
  rw [next] at h
  cases hread : c.readLeft with
  | error e =>
    rw [hread] at h
    cases h
  | ok read =>
    rw [hread] at h
    obtain ⟨b, _ | q⟩ := read
    · exact .inr ⟨b, h⟩
    · cases h
      refine .inl ⟨rfl, ?_⟩
      rw [readLeft] at hread
      split at hread
      · exact Blocks.inlineBody?_of_enter hread
      · exact Blocks.inlineBody?_of_advance hread

/-- **A step goes forward**: there is a character less behind the statement, or as many, and a token
less in it. -/
theorem size_lt_of_steps (h : c.Steps c') : c'.size < c.size := by
  have hpos := Phrase.size_pos_of_not_isEmpty h.1
  rw [size, size, Prod.Lex.toLex_lt_toLex]
  rcases cases_of_next h.2 with ⟨hsource, hbody⟩ | ⟨b, hfetch⟩
  · rw [hsource]
    exact .inr ⟨rfl, Phrase.size_inlineBody?_lt hbody⟩
  · obtain ⟨-, rfl⟩ := eq_of_fetch hfetch
    have hle := Source.length_tokens_scanFrom_le [] false c.source
    dsimp only [Phrase.size, Phrase.whole]
    by_cases htokens : c.source.scan.tokens = []
    · rw [htokens]
      rcases Nat.lt_or_eq_of_le (Source.length_scanFrom_le [] false c.source) with hlt | heq
      · exact .inl hlt
      · exact .inr ⟨heq, hpos⟩
    · exact .inl (Source.length_scanFrom_lt _ _ _ htokens)

/-- So does every way that leads further. -/
theorem size_lt_of_leads (h : c.Leads c') : c'.size < c.size := by
  induction h with
  | single h => exact size_lt_of_steps h
  | tail _ h ih => exact (size_lt_of_steps h).trans ih

example :
    (do
      let c ← fetch (.ofString "while a: b\nc") .empty
      let body ← c.next
      let below ← body.next
      return [c.size, body.size, below.size])
      = (Except.ok [toLex (1, 4), toLex (1, 1), toLex (0, 1)] : Except Error _) := by
  with_unfolding_all rfl

theorem bound_fetch_le (h : fetch src b = .ok c) : c.bound ≤ src.rest.length := by
  obtain ⟨-, rfl⟩ := eq_of_fetch h
  rw [bound, Nat.add_comm]
  exact Source.length_tokens_scanFrom_le [] false src

theorem bound_lt_of_steps (h : c.Steps c') : c'.bound < c.bound := by
  have hpos := Phrase.size_pos_of_not_isEmpty h.1
  rcases cases_of_next h.2 with ⟨hsource, hbody⟩ | ⟨b, hfetch⟩
  · rw [bound, bound, hsource]
    have := Phrase.size_inlineBody?_lt hbody
    omega
  · have := bound_fetch_le hfetch
    rw [bound.eq_def c]
    omega

/-- **Only at the end of the source is there the empty statement.** -/
theorem rest_eq_nil_of_steps (h : c.Steps c') (hempty : c'.left.isEmpty) : c'.source.rest = [] := by
  rcases cases_of_next h.2 with ⟨-, hbody⟩ | ⟨b, hfetch⟩
  · rw [Phrase.isEmpty_inlineBody? hbody] at hempty
    cases hempty
  · obtain ⟨hflaw, rfl⟩ := eq_of_fetch hfetch
    exact (Source.scanFrom_followedBy_of_nil [] hflaw rfl (List.isEmpty_iff.mp hempty)).1

/-! ## Runs -/

/-- Takes steps up to the empty statement, or to an error, if so many are enough. -/
def run : Nat → Except Error Cursor → Option (Except Error Script)
  | _, .error e => some (.error e)
  | 0, .ok _ => none
  | n + 1, .ok c =>
    if c.left.isEmpty then some (c.blocks.finish c.source.line) else run n c.next

/-- What reading comes to from a cursor on. -/
def result (c : Cursor) : Except Error Script :=
  if c.left.isEmpty then c.blocks.finish c.source.line
  else (if c.isBody then c.blocks.begin c.left else c.blocks.feed c.left).bind c.source.scriptFrom

theorem scriptFrom_eq_fetch (src : Source) (b : Blocks) :
    src.scriptFrom b = (fetch src b).bind result := by
  rw [Source.scriptFrom, fetch]
  cases src.scan.error? with
  | some e => rfl
  | none =>
    dsimp only [Except.bind]
    by_cases htokens : src.scan.tokens = []
    · rw [dif_pos htokens, result, if_pos (by rw [htokens]; rfl)]
    · rw [dif_neg htokens, result, if_neg (by rwa [Phrase.isEmpty, Phrase.whole, List.isEmpty_iff])]
      cases b.feed (.whole src.scan.tokens) <;> rfl

/-- **A step does not change what reading comes to.** -/
theorem result_eq_next (h : c.left.isEmpty = false) : c.result = c.next.bind result := by
  have hread : (if c.isBody then c.blocks.begin c.left else c.blocks.feed c.left)
      = c.readLeft.bind Blocks.resume := by
    rw [readLeft]
    split
    · exact Blocks.begin_eq_enter _ _
    · exact Blocks.feed_eq_advance _ _
  rw [result, h, if_neg Bool.false_ne_true, hread]
  cases hleft : c.readLeft with
  | error e =>
    rw [next, hleft]
    rfl
  | ok read =>
    obtain ⟨b, _ | q⟩ := read
    · rw [next, hleft]
      exact scriptFrom_eq_fetch c.source b
    · have hnext : c.next = .ok ⟨c.source, q, true, b⟩ := by rw [next, hleft]; rfl
      have hq : q.isEmpty = false := by
        rcases cases_of_next hnext with ⟨-, hbody⟩ | ⟨b', hfetch⟩
        · exact Phrase.isEmpty_inlineBody? hbody
        · exact absurd (congrArg isBody (eq_of_fetch hfetch).2) Bool.true_eq_false_eq_False
      rw [hnext]
      dsimp only [Except.bind]
      rw [result, hq]
      rfl

/-- **A run ends within the bound**, with what reading comes to. -/
theorem run_eq_result {n : Nat} {x : Except Error Cursor} (h : ∀ c, x = .ok c → c.bound < n) :
    run n x = some (x.bind result) := by
  induction n generalizing x with
  | zero =>
    cases x with
    | error e => rfl
    | ok c => exact absurd (h c rfl) (Nat.not_lt_zero _)
  | succ n ih =>
    cases x with
    | error e => rfl
    | ok c =>
      rw [run]
      split
      · next hempty =>
        dsimp only [Except.bind]
        rw [result, if_pos hempty]
      · next hempty =>
        have hempty : c.left.isEmpty = false := by simpa using hempty
        rw [ih fun c' hc' => ?_]
        · exact congrArg some (result_eq_next hempty).symm
        · have := bound_lt_of_steps ⟨hempty, hc'⟩
          have := h c rfl
          omega

end Cursor

/-- **Reading comes to an end on every source.**  The scanner takes a character off the source with
every move, or fails.  An expression is read from readings of shorter phrases alone, whatever the
tokens are, so that no more of them are in one another than there are tokens.  Each statement that
is read, each round in a body and each body behind a colon begins at a cursor, and the cursors that
it leads to have fewer characters behind the statement, or as many and fewer tokens in it; the empty
statement is at the end of the source.  So a whole script takes no more steps than it has
characters. -/
theorem Script.reading_ends :
    (∀ (open_ : Brackets) (begun : Bool) (src : Source), src.rest ≠ [] →
        (src.move open_ begun).flaw = none →
          ∃ text, text ≠ [] ∧ src.rest = text ++ (src.move open_ begun).next.rest)
      ∧ (∀ (p : Phrase) (lookup : Lookup),
        (∀ q ∈ p.asked, q.size < p.size)
          ∧ (∀ sub sub' : Expr.Sub p.size, Expr.SubSame p.asked sub sub' →
            Expr.readStep p sub lookup = Expr.readStep p sub' lookup)
          ∧ Expr.readNested (p.size + 1) p lookup = Expr.read p lookup)
      ∧ (∀ c c' : Cursor, c.Leads c' →
        c'.size < c.size ∧ (c'.left.isEmpty → c'.source.rest = []))
      ∧ ∀ (s : Session) (source : String),
        Cursor.run (source.length + 1) (Cursor.fetch (.ofString source) .empty)
          = some (s.read source).1 := by
  refine ⟨fun _ _ _ => Source.consumes_move, fun p lookup => ⟨fun _ => Phrase.size_lt_of_mem_asked,
    fun _ _ h => Expr.readStep_congr h lookup, Expr.readNested_eq (Nat.lt_succ_self _) lookup⟩,
    fun c c' h => ⟨Cursor.size_lt_of_leads h, ?_⟩, fun s source => ?_⟩
  · cases h with
    | single h => exact Cursor.rest_eq_nil_of_steps h
    | tail _ h => exact Cursor.rest_eq_nil_of_steps h
  · rw [Session.read_fst, Script.read_eq, Cursor.scriptFrom_eq_fetch]
    exact Cursor.run_eq_result fun c hc => Nat.lt_succ_of_le (Cursor.bound_fetch_le hc)

end ScriptReader

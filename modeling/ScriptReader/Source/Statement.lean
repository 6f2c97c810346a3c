import ScriptReader.Bracket
import ScriptReader.Diagnostic
import ScriptReader.Source.Piece

/-!
# Source/Statement — the statements of a script, one at a time

A statement ends at a separator that stands outside all brackets; separators before its first token
do not count.  `Source.scan` reads the tokens of the next statement, or of what there is of it
before a flaw.  `length_scanFrom_lt` says that a statement with tokens takes something off the
source, so that a source has an end.
-/

namespace ScriptReader

/-- What is left of a script, and the line on which it goes on. -/
structure Source where
  rest : List Char
  line : Nat
  deriving DecidableEq, Repr, Inhabited

namespace Source

/-- The whole of a script. -/
def ofList (cs : List Char) : Source := ⟨cs, 1⟩

def ofString (s : String) : Source := ofList s.toList

def atEnd (src : Source) : Bool := src.rest.isEmpty

/-- Takes one character off the source; a line break begins the next line. -/
def advance (src : Source) : Source :=
  match src.rest with
  | [] => src
  | c :: rest => ⟨rest, if c = '\n' then src.line + 1 else src.line⟩

/-- The source behind its first piece, which is taken off character by character.  Over a comment
the reading goes in one leap, and no line is counted. -/
def pass (piece : Piece) (rest : List Char) (src : Source) : Source :=
  ⟨rest, if src.rest.head? = some '#' then src.line
    else (piece.text.foldl (fun src _ => src.advance) src).line⟩

/-- The source after some text has been read off it. -/
def after (text rest : List Char) (src : Source) : Source := ⟨rest, src.line + text.count '\n'⟩

/-- Character by character, the line breaks of a text are counted. -/
theorem foldl_advance (text rest : List Char) (line : Nat) :
    text.foldl (fun src _ => src.advance) ⟨text ++ rest, line⟩
      = after text rest ⟨text ++ rest, line⟩ := by
  induction text generalizing line with
  | nil => rfl
  | cons c text ih =>
    rw [List.foldl_cons, List.cons_append, advance, ih, after, after, List.count_cons]
    split <;> simp [*, Nat.add_assoc, Nat.add_comm 1]

/-- A comment has no line break. -/
theorem count_newline_comment {cs rest : List Char} {piece : Piece}
    (h : piece? ('#' :: cs) = some (piece, rest)) : piece.text.count '\n' = 0 := by
  have hcomment : piece? ('#' :: cs) = some (.blank ('#' :: cs.takeWhile (· != '\n')),
      cs.dropWhile (· != '\n')) := rfl
  cases h.symm.trans hcomment
  refine List.count_eq_zero.mpr fun hmem => ?_
  rcases List.mem_cons.mp hmem with heq | hmem
  · cases heq
  · exact absurd (List.all_eq_true.mp List.all_takeWhile _ hmem) (by decide)

/-- **Behind its first piece, the source goes on where the text of the piece ends**, on the line to
which its line breaks lead. -/
theorem pass_eq {src : Source} {piece : Piece} {rest : List Char}
    (h : piece? src.rest = some (piece, rest)) :
    src.pass piece rest = src.after piece.text rest := by
  obtain ⟨cs, line⟩ := src
  refine congrArg (Source.mk rest) ?_
  dsimp only at h ⊢
  split
  · next hcomment =>
    obtain ⟨cs', rfl⟩ := List.head?_eq_some_iff.mp hcomment
    rw [count_newline_comment h, Nat.add_zero]
  · rw [← text_append_of_piece? h, foldl_advance]
    rfl

end Source

/-! ## Brackets -/

/-- The brackets that are open, the innermost first, with their lines. -/
abbrev Brackets := List (Bracket × Nat)

/-- The brackets open after a lexeme; none if it closes what is not open innermost. -/
def Brackets.pass? (open_ : Brackets) (line : Nat) : List Char → Option Brackets
  | [c] =>
    match Bracket.ofOpener? c, Bracket.ofCloser? c, open_ with
    | some b, _, _ => some ((b, line) :: open_)
    | none, some b, (o, _) :: outer => if o = b then some outer else none
    | none, some _, [] => none
    | none, none, _ => some open_
  | _ => some open_

/-! ## Statements -/

/-- What stopped the reading of a statement. -/
structure Flaw where
  problem : Problem
  line : Nat
  /-- The token that broke off, with the text it had. -/
  unfinished : Option Token
  deriving DecidableEq, Repr

/-- A statement's tokens, what is left of the source, and what stopped the reading if anything. -/
structure Scan where
  tokens : List Token
  source : Source
  flaw : Option Flaw
  deriving DecidableEq, Repr

namespace Scan

/-- The same with one more token in front. -/
def cons (t : Token) (s : Scan) : Scan := { s with tokens := t :: s.tokens }

@[simp] theorem source_cons (t : Token) (s : Scan) : (s.cons t).source = s.source := rfl

/-- The error that a flaw stands for. -/
def error? (s : Scan) : Option Error := s.flaw.map fun f => .script f.problem f.line

end Scan

namespace Source

/-- At the end of the source no bracket may be open. -/
def scanEnd (open_ : Brackets) (src : Source) : Scan :=
  ⟨[], src, open_.head?.map fun (b, line) => ⟨.unclosedBracket b.opener, line, none⟩⟩

/-- Reads on inside a statement with the given open brackets, of which there are tokens already if
it has `begun`. -/
def scanFrom (open_ : Brackets) (begun : Bool) (src : Source) : Scan :=
  match h : piece? src.rest with
  | none =>
    match src.rest with
    | [] => scanEnd open_ src
    | c :: _ => ⟨[], src, some ⟨.unexpectedCharacter c, src.line, none⟩⟩
  | some (piece, rest) =>
    have : rest.length < src.rest.length := length_lt_of_piece? h
    let next := src.pass piece rest
    match piece with
    | .blank _ => scanFrom open_ begun next
    | .separator _ =>
      if begun && open_.isEmpty then ⟨[], next, none⟩ else scanFrom open_ begun next
    | .lexeme kind text =>
      match open_.pass? src.line text with
      | some open_ => (scanFrom open_ true next).cons ⟨kind, String.ofList text, src.line⟩
      | none =>
        ⟨[], src, some ⟨.unbalancedBracket (text.headD ' '), src.line, none⟩⟩
    | .brokenContinuation _ => ⟨[], next, some ⟨.brokenContinuation, src.line, none⟩⟩
    | .brokenString text =>
      ⟨[], next,
        some ⟨.unterminatedString, src.line, some ⟨.unknown, String.ofList text, src.line⟩⟩⟩
termination_by src.rest.length

/-- Reads the next statement; at the end of the source it has no tokens. -/
def scan (src : Source) : Scan := scanFrom [] false src

/-- Scanning goes by the first piece of the source. -/
theorem scanFrom_unfold (open_ : Brackets) (begun : Bool) (src : Source) :
    scanFrom open_ begun src =
      match piece? src.rest with
      | none =>
        match src.rest with
        | [] => scanEnd open_ src
        | c :: _ => ⟨[], src, some ⟨.unexpectedCharacter c, src.line, none⟩⟩
      | some (piece, rest) =>
        let next := src.after piece.text rest
        match piece with
        | .blank _ => scanFrom open_ begun next
        | .separator _ =>
          if begun && open_.isEmpty then ⟨[], next, none⟩ else scanFrom open_ begun next
        | .lexeme kind text =>
          match open_.pass? src.line text with
          | some open_ => (scanFrom open_ true next).cons ⟨kind, String.ofList text, src.line⟩
          | none => ⟨[], src, some ⟨.unbalancedBracket (text.headD ' '), src.line, none⟩⟩
        | .brokenContinuation _ => ⟨[], next, some ⟨.brokenContinuation, src.line, none⟩⟩
        | .brokenString text =>
          ⟨[], next,
            some ⟨.unterminatedString, src.line,
              some ⟨.unknown, String.ofList text, src.line⟩⟩⟩ := by
  rw [scanFrom]
  split
  · next hnone => simp only [hnone]
  · next piece rest hpiece =>
    simp only [hpiece, pass_eq hpiece]
    cases piece <;> rfl

/-- **A token is at least one character.** -/
theorem length_tokens_scanFrom_le (open_ : Brackets) (begun : Bool) (src : Source) :
    (scanFrom open_ begun src).tokens.length + (scanFrom open_ begun src).source.rest.length
      ≤ src.rest.length := by
  fun_induction scanFrom open_ begun src with
  | case1 => exact Nat.le_of_eq (Nat.zero_add _)
  | case2 => exact Nat.le_of_eq (Nat.zero_add _)
  | case3 => rename_i hlt _ ih; exact Nat.le_trans ih (Nat.le_of_lt hlt)
  | case4 => rename_i hlt _; rw [List.length_nil, Nat.zero_add]; exact Nat.le_of_lt hlt
  | case5 => rename_i hlt _ ih; exact Nat.le_trans ih (Nat.le_of_lt hlt)
  | case6 =>
    rename_i hlt _ ih
    rw [Scan.source_cons, Scan.cons, List.length_cons, Nat.add_right_comm]
    exact Nat.lt_of_le_of_lt ih hlt
  | case7 => exact Nat.le_of_eq (Nat.zero_add _)
  | case8 => rename_i hlt _; rw [List.length_nil, Nat.zero_add]; exact Nat.le_of_lt hlt
  | case9 => rename_i hlt _; rw [List.length_nil, Nat.zero_add]; exact Nat.le_of_lt hlt

/-- Reading takes nothing back. -/
theorem length_scanFrom_le (open_ : Brackets) (begun : Bool) (src : Source) :
    (scanFrom open_ begun src).source.rest.length ≤ src.rest.length :=
  Nat.le_trans (Nat.le_add_left _ _) (length_tokens_scanFrom_le open_ begun src)

/-- **A statement with tokens takes something off the source.** -/
theorem length_scanFrom_lt (open_ : Brackets) (begun : Bool) (src : Source)
    (h : (scanFrom open_ begun src).tokens ≠ []) :
    (scanFrom open_ begun src).source.rest.length < src.rest.length := by
  have hle := length_tokens_scanFrom_le open_ begun src
  have hpos := List.length_pos_iff.mpr h
  omega

end Source

end ScriptReader

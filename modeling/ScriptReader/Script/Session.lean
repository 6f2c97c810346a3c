import ScriptReader.Script.Line
import ScriptReader.Source.Statement
import ScriptReader.Store

/-!
# Script/Session — what reading goes by

A session is where reading stands: what is left of the script, the store with the tokens of the
statement being read, and which of them are to be read now.  The tokens of a statement go into the
store before anything is made of them, and it is from the store that they are read.  A session may
read scripts one after another, so that the pools of one script serve the next.  Nothing else of an
earlier script is left to go by: each script brings its source, and its first statement the tokens
and their places.
-/

namespace ScriptReader

/-- Replaces the contents of a store by the tokens of a statement, and by what there is of the token
that broke off if one did. -/
def Store.hold (scan : Scan) (s : Store) : Store :=
  let s := scan.tokens.foldl (fun s t => s.add t) s.clear
  match scan.flaw.bind Flaw.unfinished with
  | none => s
  | some t => s.form t.line t.text.toList

theorem Store.size_hold_le (scan : Scan) (s : Store) :
    (s.hold scan).size ≤ scan.tokens.length := by
  have hfold (ts : List Token) (s : Store) :
      (ts.foldl (fun s t => s.add t) s).size ≤ s.size + ts.length := by
    induction ts generalizing s with
    | nil => exact Nat.le_refl _
    | cons t ts ih =>
      have hadd := size_add_le t s
      have hrest := ih (s.add t)
      rw [List.foldl_cons, List.length_cons]
      omega
  have hle := hfold scan.tokens s.clear
  rw [show s.clear.size = 0 from rfl, Nat.zero_add] at hle
  unfold hold
  dsimp only
  split
  · exact hle
  · rwa [size, entries_form]

/-- Where reading stands. -/
structure Session where
  /-- What is left of the script. -/
  source : Source
  /-- The store with the tokens of the statement. -/
  store : Store
  /-- The place of the first token to be read. -/
  first : Nat
  /-- The place after the last token to be read. -/
  last : Nat
  deriving Inhabited

namespace Session

/-- A session that has read nothing. -/
def new : Session := ⟨⟨[], 0⟩, .empty, 0, 0⟩

/-- The statement to be read. -/
def statement (s : Session) : Phrase := (Phrase.whole s.store.tokens).slice s.first s.last

/-- How much there is to read, in characters of the script and tokens of the statement. -/
def extent (s : Session) : Nat := s.source.rest.length + s.statement.size

/-! ## The next statement -/

/-- Reads the tokens of the next statement, all of which are then to be read; how many they are. -/
def nextStatement (s : Session) : Except Error Nat × Session :=
  let scan := s.source.scan
  let store := s.store.hold scan
  match scan.error? with
  | some e => (.error e, { s with source := scan.source, store := store })
  | none => (.ok store.size, ⟨scan.source, store, 0, store.size⟩)

/-- A statement's tokens are no more than the characters it is made of. -/
theorem extent_nextStatement_le {s s' : Session} {count : Nat}
    (h : s.nextStatement = (.ok count, s')) : s'.extent ≤ s.source.rest.length := by
  unfold nextStatement at h
  dsimp only at h
  split at h
  · cases h
  · cases h
    have hscan := Source.length_tokens_scanFrom_le [] false s.source
    have hhold := Store.size_hold_le s.source.scan s.store
    have hslice := Phrase.size_slice_le 0 (s.store.hold s.source.scan).size
      (Phrase.whole (s.store.hold s.source.scan).tokens)
    have hwhole : (Phrase.whole (s.store.hold s.source.scan).tokens).size
        = (s.store.hold s.source.scan).size := List.length_map ..
    rw [extent, statement]
    dsimp only
    unfold Source.scan at *
    omega

/-! ## A body on the same line -/

/-- Only a stretch of the statement is to be read. -/
def narrow (p : Phrase) (s : Session) : Session := { s with first := p.start, last := p.stop }

/-- **A body on the same line is then the statement to be read.** -/
theorem statement_narrow {s : Session} {p : Phrase} (h : s.statement.inlineBody? = some p) :
    (s.narrow p).statement = p := by
  obtain ⟨pos, -, hpos, rfl⟩ := Phrase.exists_of_inlineBody? h
  exact Phrase.slice_whole_slice rfl (Nat.le_of_lt hpos) (Nat.le_refl _)

end Session

end ScriptReader

import ScriptReader.Proofs.Source.Following
import ScriptReader.Proofs.Source.Moves
import ScriptReader.Proofs.Store.Refinement

/-!
# Proofs/Store/Formed — a statement formed in a store does not depend on what the store held

A scanner that forms its tokens in a store character by character reads two things off the store:
whether there are tokens already, and whether the word just formed is reserved.
`Source.formInto` is that scanner.  It yields what `Source.scan` yields, and leaves the store that
`Store.hold` makes of the scan (`Source.formInto_eq`), whatever tokens, finished or not, and
whatever pools there were before.
-/

namespace ScriptReader

/-! ## Forming while scanning -/

namespace Store

/-- The kind of the token being formed, where its first character makes it the given one: whether a
word is reserved shows in the store. -/
def formedKind (kind : Kind) (s : Store) : Kind :=
  if kind = .keyword ∨ kind = .identifier then
    if s.unfinished?.any (isReserved ·.text) then .keyword else .identifier
  else kind

/-- Forms a lexeme, names its kind and finishes it. -/
def addLexeme (kind : Kind) (text : List Char) (line : Nat) (s : Store) : Store :=
  let s := s.form line text
  (s.classify (s.formedKind kind)).finish

/-- Begins to form what broke off, if anything did. -/
def addUnfinished (t? : Option Token) (s : Store) : Store :=
  match t? with
  | none => s
  | some t => s.form t.line t.text.toList

end Store

/-- A statement in the store it was formed in. -/
structure Stored where
  source : Source
  store : Store
  error? : Option Error

namespace Source

/-- Reads on inside a statement whose tokens so far are in the store. -/
def formFrom (open_ : Brackets) (src : Source) (store : Store) : Stored :=
  match h : src.move open_ (!store.isEmpty) with
  | .skip next =>
    have := length_next_lt (.inl h)
    formFrom open_ next store
  | .form kind text open_ next =>
    have := length_next_lt (.inr ⟨_, _, _, h⟩)
    formFrom open_ next (store.addLexeme kind text src.line)
  | .stop next flaw =>
    ⟨next, store.addUnfinished (flaw.bind Flaw.unfinished),
      flaw.map fun f => .script f.problem f.line⟩
termination_by src.rest.length

/-- Reads the next statement into a store, which is cleared before. -/
def formInto (src : Source) (store : Store) : Stored := formFrom [] src store.clear

end Source

/-! ## Lexemes -/

/-- A word is a keyword just if it is reserved. -/
theorem kind_eq_of_word {kind : Kind} {text cs rest : List Char}
    (h : piece? cs = some (.lexeme kind text, rest))
    (hword : kind = .keyword ∨ kind = .identifier) :
    kind = if isReserved (String.ofList text) then .keyword else .identifier := by
  cases cs with
  | nil => cases h
  | cons c cs =>
    cases lexemeAt_of_pieceAt? h with
    | ofString _ _ h =>
      have hkind := kind_string h
      unfold stringKind at hkind
      rcases hword with rfl | rfl <;> repeat' split at hkind
      all_goals cases hkind
    | ofNumeral _ h =>
      have hkind := kind_numeral h
      rcases hword with rfl | rfl <;> cases hkind
    | ofWord _ h =>
      simp only [word, Prod.mk.injEq, Piece.lexeme.injEq] at h
      obtain ⟨⟨hkind, rfl⟩, -⟩ := h
      exact hkind.symm
    | ofOperator _ h =>
      have hkind := kind_operator? h
      rcases hword with rfl | rfl <;> cases hkind

namespace Store

variable {s : Store} {ts : List Token}

theorem represents_formed (hs : s.Represents ⟨ts, none⟩) (line : Nat) (text : List Char) :
    (s.form line text).Represents ⟨ts, some ⟨.unknown, String.ofList text, line⟩⟩ := by
  have h := represents_form line (String.ofList text) hs
  rwa [String.toList_ofList] at h

/-- **The store shows the word that was formed**, so that its kind is the lexeme's. -/
theorem formedKind_eq (hs : s.Represents ⟨ts, none⟩) {line : Nat} {kind : Kind}
    {text cs rest : List Char} (h : piece? cs = some (.lexeme kind text, rest)) :
    (s.form line text).formedKind kind = kind := by
  rw [formedKind, unfinished?_of_represents (represents_formed hs line text)]
  split
  · next hword => exact (kind_eq_of_word h hword).symm
  · rfl

theorem addLexeme_eq (hs : s.Represents ⟨ts, none⟩) {line : Nat} {kind : Kind}
    {text cs rest : List Char} (h : piece? cs = some (.lexeme kind text, rest)) :
    s.addLexeme kind text line = s.add ⟨kind, String.ofList text, line⟩ := by
  simp only [addLexeme, formedKind_eq hs h, add, String.toList_ofList]

theorem isEmpty_of_represents {r : Record} (hs : s.Represents r) :
    s.isEmpty = r.finished.isEmpty := by
  rw [← hs.lays.tokens, tokens, isEmpty, List.isEmpty_map, Array.isEmpty_toList]

/-- A store goes on to hold the tokens of a scan. -/
def holdMore (scan : Scan) (s : Store) : Store :=
  (scan.tokens.foldl (fun s t => s.add t) s).addUnfinished (scan.flaw.bind Flaw.unfinished)

theorem hold_eq (scan : Scan) (s : Store) : s.hold scan = s.clear.holdMore scan := by
  rw [hold, holdMore]
  cases scan.flaw.bind Flaw.unfinished <;> rfl

/-- What a store holds of a token that broke off. -/
theorem unfinished?_hold (scan : Scan) (s : Store) : (s.hold scan).unfinished?
    = (scan.flaw.bind Flaw.unfinished).map ({ · with kind := .unknown }) := by
  have h := represents_foldl_add scan.tokens (represents_clear s)
  rw [hold]
  cases scan.flaw.bind Flaw.unfinished with
  | none => exact unfinished?_of_represents h
  | some t => exact unfinished?_of_represents (represents_form t.line t.text h)

end Store

/-! ## Scanning into a store -/

namespace Source

/-- **The scanner that forms its tokens in a store reads what the scanner reads**, and the store
comes to hold it. -/
theorem formFrom_eq {open_ : Brackets} {src : Source} {store : Store} {ts : List Token}
    (hs : store.Represents ⟨ts, none⟩) :
    src.formFrom open_ store = ⟨(src.scanFrom open_ (!ts.isEmpty)).source,
      store.holdMore (src.scanFrom open_ (!ts.isEmpty)),
      (src.scanFrom open_ (!ts.isEmpty)).error?⟩ := by
  have hempty := Store.isEmpty_of_represents hs
  fun_induction formFrom open_ src store generalizing ts with
  | case1 open_ src store next h _ ih =>
    rw [hempty] at h
    rw [scanFrom_eq, h]
    exact ih hs hempty
  | case2 open_ src store kind text open' next h _ ih =>
    rw [hempty] at h
    have hadd : store.addLexeme kind text src.line
        = store.add ⟨kind, String.ofList text, src.line⟩ := by
      cases moves_of_eq h with
      | lexeme hpiece => exact Store.addLexeme_eq hs hpiece
    have hmore := Store.represents_add ⟨kind, String.ofList text, src.line⟩ hs
    have hbegun : (ts ++ [Token.mk kind (String.ofList text) src.line]).isEmpty = false := by simp
    rw [hadd] at ih ⊢
    rw [ih hmore (Store.isEmpty_of_represents hmore), scanFrom_eq open_, h, hbegun]
    rfl
  | case3 open_ src store next flaw h =>
    rw [hempty] at h
    rw [scanFrom_eq, h]
    rfl

/-- **Whatever a store held, a statement read into it is the statement scanned**, and the store
holds its tokens and nothing else. -/
theorem formInto_eq (src : Source) (store : Store) :
    src.formInto store = ⟨src.scan.source, store.hold src.scan, src.scan.error?⟩ := by
  rw [Store.hold_eq]
  exact formFrom_eq (Store.represents_clear store)

end Source

end ScriptReader

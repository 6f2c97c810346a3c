import ScriptReader.Source.Statement

/-!
# Proofs/Source/Moves — what one piece of a source does to the statement being read

The scanner looks at one piece and either passes it over, makes a token of it, or stops
(`Source.move`, `Source.Moves`).  Scanning is one move after another (`Source.scanFrom_eq`), so that
what every move preserves, every scan has: `Source.induction_on_moves` is the induction.
-/

namespace ScriptReader

/-- What the next piece of a source does to the statement being read. -/
inductive Move where
  /-- It is passed over. -/
  | skip (next : Source)
  /-- It is a token, behind which the given brackets are open. -/
  | form (kind : Kind) (text : List Char) (open_ : Brackets) (next : Source)
  /-- It ends the statement, or breaks it off. -/
  | stop (next : Source) (flaw : Option Flaw)

namespace Source

/-- What the next piece does where the given brackets are open and the statement has tokens already
if it has `begun`. -/
def move (open_ : Brackets) (begun : Bool) (src : Source) : Move :=
  match piece? src.rest with
  | none =>
    match src.rest with
    | [] => .stop src (open_.head?.map fun (b, line) => ⟨.unclosedBracket b.opener, line, none⟩)
    | c :: _ => .stop src (some ⟨.unexpectedCharacter c, src.line, none⟩)
  | some (piece, rest) =>
    let next := src.after piece.text rest
    match piece with
    | .blank _ => .skip next
    | .separator _ => if begun && open_.isEmpty then .stop next none else .skip next
    | .lexeme kind text =>
      match open_.pass? src.line text with
      | some open_ => .form kind text open_ next
      | none => .stop src (some ⟨.unbalancedBracket (text.headD ' '), src.line, none⟩)
    | .brokenContinuation _ => .stop next (some ⟨.brokenContinuation, src.line, none⟩)
    | .brokenString text =>
      .stop next
        (some ⟨.unterminatedString, src.line, some ⟨.unknown, String.ofList text, src.line⟩⟩)

/-- **Scanning is one move after another.** -/
theorem scanFrom_eq (open_ : Brackets) (begun : Bool) (src : Source) :
    scanFrom open_ begun src =
      match src.move open_ begun with
      | .skip next => scanFrom open_ begun next
      | .form kind text open' next =>
        (scanFrom open' true next).cons ⟨kind, String.ofList text, src.line⟩
      | .stop next flaw => ⟨[], next, flaw⟩ := by
  rw [scanFrom_unfold, move]
  split
  · next hnone =>
    simp only [hnone]
    cases src.rest with
    | nil => rfl
    | cons c rest => rfl
  · next piece rest hpiece =>
    simp only [hpiece]
    split
    · rfl
    · split <;> rfl
    · split
      · next hpass => simp only [hpass]
      · next hpass => simp only [hpass]
    · rfl
    · rfl

/-- **How a move comes about.** -/
inductive Moves (open_ : Brackets) (begun : Bool) (src : Source) : Move → Prop
  | blank {text rest : List Char} (hpiece : piece? src.rest = some (.blank text, rest)) :
      Moves open_ begun src (.skip (src.after text rest))
  /-- Before the first token and between brackets, a separator counts as a blank. -/
  | separator {mark : Char} {rest : List Char}
      (hpiece : piece? src.rest = some (.separator mark, rest))
      (hopen : begun = true → open_ ≠ []) :
      Moves open_ begun src (.skip (src.after [mark] rest))
  | lexeme {kind : Kind} {text rest : List Char} {open' : Brackets}
      (hpiece : piece? src.rest = some (.lexeme kind text, rest))
      (hpass : open_.pass? src.line text = some open') :
      Moves open_ begun src (.form kind text open' (src.after text rest))
  | finished {mark : Char} {rest : List Char}
      (hpiece : piece? src.rest = some (.separator mark, rest)) (hbegun : begun = true)
      (hopen : open_ = []) : Moves open_ begun src (.stop (src.after [mark] rest) none)
  | ended (hrest : src.rest = []) (hopen : open_ = []) : Moves open_ begun src (.stop src none)
  | unclosed {b : Bracket} {line : Nat} {outer : Brackets} (h : src.rest = [])
      (hopen : open_ = (b, line) :: outer) :
      Moves open_ begun src (.stop src (some ⟨.unclosedBracket b.opener, line, none⟩))
  | unexpected {c : Char} {cs : List Char} (hrest : src.rest = c :: cs)
      (hnone : piece? src.rest = none) :
      Moves open_ begun src (.stop src (some ⟨.unexpectedCharacter c, src.line, none⟩))
  | unbalanced {kind : Kind} {text rest : List Char}
      (hpiece : piece? src.rest = some (.lexeme kind text, rest))
      (hpass : open_.pass? src.line text = none) :
      Moves open_ begun src
        (.stop src (some ⟨.unbalancedBracket (text.headD ' '), src.line, none⟩))
  | brokenContinuation {text rest : List Char}
      (hpiece : piece? src.rest = some (.brokenContinuation text, rest)) :
      Moves open_ begun src
        (.stop (src.after text rest) (some ⟨.brokenContinuation, src.line, none⟩))
  | brokenString {text rest : List Char}
      (hpiece : piece? src.rest = some (.brokenString text, rest)) :
      Moves open_ begun src
        (.stop (src.after text rest)
          (some ⟨.unterminatedString, src.line, some ⟨.unknown, String.ofList text, src.line⟩⟩))

theorem moves_move (open_ : Brackets) (begun : Bool) (src : Source) :
    Moves open_ begun src (src.move open_ begun) := by
  rw [move]
  split
  · next hnone =>
    split
    · next hrest =>
      cases open_ with
      | nil => exact .ended hrest rfl
      | cons b outer => exact .unclosed hrest rfl
    · next hrest => exact .unexpected hrest hnone
  · next piece rest hpiece =>
    dsimp only
    split
    · exact .blank hpiece
    · split
      · next hends =>
        rw [Bool.and_eq_true, List.isEmpty_iff] at hends
        exact .finished hpiece hends.1 hends.2
      · next hends =>
        rw [Bool.and_eq_true, List.isEmpty_iff] at hends
        exact .separator hpiece fun hbegun hopen => hends ⟨hbegun, hopen⟩
    · split
      · next hpass => exact .lexeme hpiece hpass
      · next hpass => exact .unbalanced hpiece hpass
    · exact .brokenContinuation hpiece
    · exact .brokenString hpiece

variable {open_ : Brackets} {begun : Bool} {src next : Source}

/-! Scanning, by the next move. -/

theorem scanFrom_of_skip (h : src.move open_ begun = .skip next) :
    src.scanFrom open_ begun = next.scanFrom open_ begun := by rw [scanFrom_eq, h]

theorem scanFrom_of_form {kind : Kind} {text : List Char} {open' : Brackets}
    (h : src.move open_ begun = .form kind text open' next) :
    src.scanFrom open_ begun
      = (next.scanFrom open' true).cons ⟨kind, String.ofList text, src.line⟩ := by
  rw [scanFrom_eq, h]

theorem scanFrom_of_stop {flaw : Option Flaw} (h : src.move open_ begun = .stop next flaw) :
    src.scanFrom open_ begun = ⟨[], next, flaw⟩ := by rw [scanFrom_eq, h]

theorem moves_of_eq {m : Move} (h : src.move open_ begun = m) : Moves open_ begun src m :=
  h ▸ moves_move open_ begun src

/-- Whatever goes on behind a piece is shorter. -/
theorem length_next_lt (h : src.move open_ begun = .skip next ∨
      ∃ kind text open', src.move open_ begun = .form kind text open' next) :
    next.rest.length < src.rest.length := by
  rcases h with hskip | ⟨kind, text, open', hform⟩
  · cases moves_of_eq hskip with
    | blank hpiece => exact length_lt_of_piece? hpiece
    | separator hpiece => exact length_lt_of_piece? hpiece
  · cases moves_of_eq hform with
    | lexeme hpiece => exact length_lt_of_piece? hpiece

/-- **What every move preserves, every scan has.** -/
theorem induction_on_moves {motive : Brackets → Bool → Source → Prop}
    (skip : ∀ open_ begun src next, src.move open_ begun = .skip next →
      motive open_ begun next → motive open_ begun src)
    (form : ∀ open_ begun src kind text open' next,
      src.move open_ begun = .form kind text open' next → motive open' true next →
        motive open_ begun src)
    (stop : ∀ open_ begun src next flaw, src.move open_ begun = .stop next flaw →
      motive open_ begun src)
    (open_ : Brackets) (begun : Bool) (src : Source) : motive open_ begun src := by
  induction hn : src.rest.length using Nat.strongRecOn generalizing open_ begun src with
  | ind n ih =>
    subst hn
    cases hmove : src.move open_ begun with
    | skip next =>
      exact skip _ _ _ _ hmove (ih _ (length_next_lt (.inl hmove)) _ _ _ rfl)
    | form kind text open' next =>
      exact form _ _ _ _ _ _ _ hmove (ih _ (length_next_lt (.inr ⟨_, _, _, hmove⟩)) _ _ _ rfl)
    | stop next flaw => exact stop _ _ _ _ _ hmove

/-- **What the scan of a source gets to**: the open brackets, whether the statement has begun, and
what is left of the source there. -/
inductive Reaches (start : Source) : Brackets → Bool → Source → Prop
  | start : Reaches start [] false start
  | skip {open_ : Brackets} {begun : Bool} {src next : Source} (h : Reaches start open_ begun src)
      (hmove : src.move open_ begun = .skip next) : Reaches start open_ begun next
  | form {open_ open' : Brackets} {begun : Bool} {src next : Source} {kind : Kind}
      {text : List Char} (h : Reaches start open_ begun src)
      (hmove : src.move open_ begun = .form kind text open' next) : Reaches start open' true next

/-- **The scan comes to what it comes to from there.** -/
theorem Reaches.scan_eq {start : Source} (h : start.Reaches open_ begun src) :
    ∃ tokens, start.scan = ⟨tokens ++ (src.scanFrom open_ begun).tokens,
      (src.scanFrom open_ begun).source, (src.scanFrom open_ begun).flaw⟩ := by
  induction h with
  | start => exact ⟨[], rfl⟩
  | skip _ hmove ih => rwa [scanFrom_of_skip hmove] at ih
  | @form _ _ _ src _ kind text _ hmove ih =>
    obtain ⟨tokens, hscan⟩ := ih
    refine ⟨tokens ++ [⟨kind, String.ofList text, src.line⟩], ?_⟩
    rw [hscan, scanFrom_of_form hmove, List.append_assoc]
    rfl

end Source

end ScriptReader

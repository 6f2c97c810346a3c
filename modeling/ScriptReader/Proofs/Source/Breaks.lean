import ScriptReader.Proofs.Source.Layout
import ScriptReader.Proofs.Source.Scanned
import ScriptReader.Proofs.Source.Stretch

/-!
# Proofs/Source/Breaks — a line break keeps what is behind it apart

A lexeme is the longest that its text begins with (`endsBefore_of_piece?`), and no piece that is not
broken goes over a line break put behind the text (`blank_append_newline`,
`separator_append_newline`, `lexeme_append_newline`).  So a statement that is scanned without a flaw
is scanned the same where a line break and more text follow (`Source.scanFrom_followedBy`).
-/

namespace ScriptReader

open ScriptReader.Text

/-! ## The longest match -/

/-- What is left behind a run does not go on with it. -/
theorem head?_dropWhile {p : Char → Bool} {cs : List Char} :
    ∀ c ∈ (cs.dropWhile p).head?, p c = false := fun c hc => by
  have hstop := List.head?_dropWhile_not p cs
  rw [Option.mem_def.mp hc] at hstop
  simpa using hstop

/-- No digit follows a decimal number, nor a point and a digit if it has no point. -/
theorem ends_of_decimal {cs text rest : List Char} {kind : Kind}
    (h : decimal cs = (.lexeme kind text, rest)) :
    (∀ c ∈ rest.head?, isDigit c = false)
      ∧ ('.' ∉ text → ∀ d tail, rest = '.' :: d :: tail → isDigit d = false) := by
  unfold decimal at h
  split at h
  · split at h
    · cases h
      exact ⟨head?_dropWhile, fun hdot => absurd (List.mem_append_right _ List.mem_cons_self) hdot⟩
    · next hd =>
      cases h
      refine ⟨fun c hc => ?_, fun _ e es heq => ?_⟩
      · cases hc
        rfl
      · cases heq
        exact Bool.eq_false_iff.mpr hd
  · next hnone =>
    cases h
    refine ⟨head?_dropWhile, fun _ d tail heq => ?_⟩
    exact absurd heq (hnone d tail)

theorem numeralEnds_of_decimal {cs text rest : List Char} {kind : Kind}
    (h : decimal cs = (.lexeme kind text, rest)) (hx : ∀ tail, cs ≠ '0' :: 'x' :: tail)
    (hX : ∀ tail, cs ≠ '0' :: 'X' :: tail) : NumeralEnds rest text := by
  have happend : text ++ rest = cs := by
    rw [← text_append_decimal cs, h]
    rfl
  obtain ⟨hdigit, hpoint⟩ := ends_of_decimal h
  unfold NumeralEnds
  split
  · exact absurd happend.symm (hx _)
  · exact absurd happend.symm (hX _)
  · refine ⟨hdigit, hpoint, fun hzero c hc => ?_⟩
    obtain ⟨tail, rfl⟩ : ∃ tail, rest = c :: tail := List.head?_eq_some_iff.mp hc
    rw [hzero] at happend
    exact ⟨fun heq => hx tail (by rw [← happend, heq]; rfl),
      fun heq => hX tail (by rw [← happend, heq]; rfl)⟩

theorem numeralEnds_of_numeral {cs text rest : List Char} {kind : Kind}
    (h : numeral cs = (.lexeme kind text, rest)) : NumeralEnds rest text := by
  unfold numeral at h
  split at h
  · cases h
    exact head?_dropWhile
  · cases h
    exact head?_dropWhile
  · next hx hX => exact numeralEnds_of_decimal h hx hX

/-- Two quotes alone are not followed by a third one. -/
theorem ne_quote_of_string {c q : Char} {kind : Kind} {cs rest : List Char}
    (h : string c cs = (.lexeme kind [q, q], rest)) (hkind : kind ≠ .longString) :
    ∀ d ∈ rest.head?, d ≠ q := by
  rintro d hd rfl
  have happend : d :: d :: rest = c :: cs := by
    rw [← text_append_string c cs, h]
    rfl
  obtain ⟨rfl, rfl⟩ := List.cons.inj happend
  obtain ⟨tail, rfl⟩ : ∃ tail, rest = d :: tail := List.head?_eq_some_iff.mp hd
  refine hkind ((kind_string h).trans (if_pos ?_))
  rw [isTripled, beq_iff_eq]
  rfl

/-- An operator of one character does not begin one of two. -/
theorem not_mem_doubleOperators_of_operator? {c d : Char} {kind : Kind} {cs rest : List Char}
    (h : operator? c cs = some (.lexeme kind [d], rest)) :
    ∀ e ∈ rest.head?, (d, e) ∉ doubleOperators := by
  unfold operator? at h
  split at h
  · split at h
    · cases h
    · next hdouble =>
      split at h
      · cases h
        rintro e he
        cases he
        exact hdouble
      · cases h
  · split at h
    · cases h
      rintro e ⟨⟩
    · cases h

/-- **What follows a lexeme does not go on with it**: the longest one is read. -/
theorem endsBefore_of_piece? {t : Token} {cs rest : List Char}
    (h : piece? cs = some (.lexeme t.kind t.text.toList, rest)) : t.EndsBefore rest := by
  cases cs with
  | nil => cases h
  | cons c cs =>
    obtain ⟨kind, text, line⟩ := t
    simp only [Token.EndsBefore] at h ⊢
    generalize text.toList = text at h ⊢
    cases lexemeAt_of_pieceAt? h with
    | ofString _ _ h =>
      cases kind with
      | apostropheString | quotedString =>
        rintro q rfl
        exact ne_quote_of_string h (by decide)
      | longString | unknown => trivial
      | keyword | identifier | number | operator =>
        have hkind := kind_string h
        unfold stringKind at hkind
        repeat' split at hkind
        all_goals cases hkind
    | ofNumeral _ h =>
      obtain rfl := kind_numeral h
      exact numeralEnds_of_numeral h
    | ofWord _ h =>
      have hends : ∀ d ∈ rest.head?, isWordPart d = false := by
        cases h
        exact head?_dropWhile
      rcases kind_word h with rfl | rfl
      · exact hends
      · exact hends
    | ofOperator _ h =>
      obtain rfl := kind_operator? h
      rintro d rfl
      exact not_mem_doubleOperators_of_operator? h

/-! ## A line break behind a text -/

variable {rest : List Char} (ds : List Char)

theorem NumeralEnds.append_newline {c : Char} {cs : List Char} (h : NumeralEnds (c :: rest) cs) :
    NumeralEnds (c :: (rest ++ '\n' :: ds)) cs := by
  revert h
  unfold NumeralEnds
  split
  · exact id
  · exact id
  · rintro ⟨hdigit, hpoint, hzero⟩
    refine ⟨hdigit, fun hdot d tail heq => ?_, hzero⟩
    cases rest with
    | nil =>
      cases heq
      rfl
    | cons e rest =>
      cases heq
      exact hpoint hdot _ _ rfl

/-- A line break behind what follows does not go on with a token either. -/
theorem Token.EndsBefore.append_newline {t : Token} (ht : t.IsLexeme) (h : t.EndsBefore rest) :
    t.EndsBefore (rest ++ '\n' :: ds) := by
  cases rest with
  | nil => exact ht.endsBefore fun c hc => .inr (by cases hc; rfl)
  | cons c rest =>
    revert h
    unfold Token.EndsBefore
    split
    case h_3 => exact NumeralEnds.append_newline ds
    all_goals exact id

theorem takeWhile_append_newline {p : Char → Bool} (hp : p '\n' = false) (cs : List Char) :
    (cs ++ '\n' :: ds).takeWhile p = cs.takeWhile p
      ∧ (cs ++ '\n' :: ds).dropWhile p = cs.dropWhile p ++ '\n' :: ds := by
  induction cs with
  | nil =>
    have hneg : ¬p '\n' = true := by rw [hp]; exact Bool.false_ne_true
    rw [List.nil_append, List.takeWhile_cons_of_neg hneg, List.dropWhile_cons_of_neg hneg]
    exact ⟨rfl, rfl⟩
  | cons c cs ih =>
    rw [List.cons_append, List.takeWhile_cons, List.takeWhile_cons, List.dropWhile_cons,
      List.dropWhile_cons]
    split
    · exact ⟨congrArg (c :: ·) ih.1, ih.2⟩
    · exact ⟨rfl, rfl⟩

theorem continuation_append_newline {text cs : List Char}
    (h : continuation cs = (.blank text, rest)) :
    continuation (cs ++ '\n' :: ds) = (.blank text, rest ++ '\n' :: ds) := by
  rw [continuation.eq_def] at h
  split at h <;> cases h <;> rfl

/-- Layout is read the same before a line break. -/
theorem blank_append_newline {text cs : List Char} (h : piece? cs = some (.blank text, rest)) :
    piece? (cs ++ '\n' :: ds) = some (.blank text, rest ++ '\n' :: ds) := by
  cases cs with
  | nil => cases h
  | cons c cs =>
    have hlayout := layoutAt_of_pieceAt? h nofun
    rw [List.cons_append, piece?, pieceAt?]
    cases hlayout with
    | ofBlank hc h =>
      obtain ⟨htake, hdrop⟩ := takeWhile_append_newline ds (p := isBlank) rfl cs
      rw [if_pos hc, htake, hdrop]
      cases h
      rfl
    | ofComment hc h =>
      obtain ⟨htake, hdrop⟩ := takeWhile_append_newline ds (p := (· != '\n')) rfl cs
      subst hc
      rw [if_neg (by decide), if_pos rfl, htake, hdrop]
      cases h
      rfl
    | ofSeparator _ h => cases h
    | ofBackslash hc hcs =>
      subst hc
      exact congrArg some (continuation_append_newline ds hcs)
    | ofQuote _ _ h => cases h

theorem separator_append_newline {mark : Char} {cs : List Char}
    (h : piece? cs = some (.separator mark, rest)) :
    piece? (cs ++ '\n' :: ds) = some (.separator mark, rest ++ '\n' :: ds) := by
  cases cs with
  | nil => cases h
  | cons c cs =>
    cases layoutAt_of_pieceAt? h nofun with
    | ofBlank _ h => cases h
    | ofComment _ h => cases h
    | ofSeparator hc h =>
      cases h
      rcases hc with rfl | rfl <;> rfl
    | ofBackslash _ h =>
      rw [continuation.eq_def] at h
      split at h <;> cases h
    | ofQuote _ _ h => cases h

/-- **So are lexemes**, as the line break does not go on with them. -/
theorem lexeme_append_newline {kind : Kind} {text cs : List Char}
    (h : piece? cs = some (.lexeme kind text, rest)) :
    piece? (cs ++ '\n' :: ds) = some (.lexeme kind text, rest ++ '\n' :: ds) := by
  have htext : (String.ofList text).toList = text := String.toList_ofList
  have happend : text ++ rest = cs := text_append_of_piece? h
  have hlexeme : Token.IsLexeme ⟨kind, String.ofList text, 1⟩ := by
    rw [Token.IsLexeme, htext]
    exact piece?_text h
  have hends : Token.EndsBefore rest ⟨kind, String.ofList text, 1⟩ :=
    endsBefore_of_piece? (by rwa [htext])
  have hread := piece?_append hlexeme (hends.append_newline ds hlexeme)
  rwa [htext, ← List.append_assoc, happend] at hread

/-! ## Sources -/

namespace Source

/-- The source with a line break and more text behind it. -/
def followedBy (src : Source) : Source := { src with rest := src.rest ++ '\n' :: ds }

variable {open_ : Brackets} {begun : Bool} {src next : Source}

/-- What is passed over, is passed over. -/
theorem skip_followedBy (h : src.move open_ begun = .skip next) :
    (src.followedBy ds).move open_ begun = .skip (next.followedBy ds) := by
  cases moves_of_eq h with
  | blank hpiece =>
    rw [move, followedBy, blank_append_newline ds hpiece]
    rfl
  | separator hpiece hopen =>
    have hinside : (begun && open_.isEmpty) = false := by
      rw [← Bool.not_eq_true, Bool.and_eq_true, List.isEmpty_iff]
      exact fun hends => hopen hends.1 hends.2
    rw [move, followedBy, separator_append_newline ds hpiece]
    simp only [hinside]
    rfl

/-- What is a token, is the same one. -/
theorem form_followedBy {kind : Kind} {text : List Char} {open' : Brackets}
    (h : src.move open_ begun = .form kind text open' next) :
    (src.followedBy ds).move open_ begun = .form kind text open' (next.followedBy ds) := by
  cases moves_of_eq h with
  | lexeme hpiece hpass =>
    rw [move, followedBy, lexeme_append_newline ds hpiece]
    simp only [hpass]
    rfl

/-- Behind what ends a statement, the text goes on. -/
theorem finished_followedBy {mark : Char}
    (hpiece : piece? src.rest = some (.separator mark, rest)) :
    (src.followedBy ds).move [] true = .stop ((src.after [mark] rest).followedBy ds) none := by
  rw [move, followedBy, separator_append_newline ds hpiece]
  rfl

/-- **A statement that has begun is read to its end**, and what goes on behind it is what goes on
behind a line break. -/
theorem scanFrom_followedBy (h : (src.scanFrom open_ begun).flaw = none)
    (hbegun : begun = true ∨ (src.scanFrom open_ begun).tokens ≠ []) :
    ∃ next, (src.followedBy ds).scanFrom open_ begun
        = ⟨(src.scanFrom open_ begun).tokens, next, none⟩
      ∧ next.scan = ((src.scanFrom open_ begun).source.followedBy ds).scan := by
  induction open_, begun, src using induction_on_moves with
  | skip open_ begun src next hmove ih =>
    rw [scanFrom_of_skip hmove] at h hbegun ⊢
    rw [scanFrom_of_skip (skip_followedBy ds hmove)]
    exact ih h hbegun
  | form open_ begun src kind text open' next hmove ih =>
    rw [scanFrom_of_form hmove] at h ⊢
    obtain ⟨last, hscan, hlast⟩ := ih h (.inl rfl)
    rw [scanFrom_of_form (form_followedBy ds hmove), hscan]
    exact ⟨last, rfl, hlast⟩
  | stop open_ begun src next flaw hmove =>
    rw [scanFrom_of_stop hmove] at h hbegun ⊢
    obtain rfl : begun = true := hbegun.resolve_right (not_not.mpr rfl)
    obtain rfl : flaw = none := h
    cases moves_of_eq hmove with
    | finished hpiece _ hopen =>
      subst hopen
      rw [scanFrom_of_stop (finished_followedBy ds hpiece)]
      exact ⟨_, rfl, rfl⟩
    | ended hrest hopen =>
      subst hopen
      have hbreak : isSeparator '\n' = true := rfl
      have hsrc : src.followedBy ds = ⟨'\n' :: ds, src.line⟩ := by rw [followedBy, hrest]; rfl
      have hnext : scan ⟨'\n' :: ds, src.line⟩ = scan ⟨ds, src.line + 1⟩ :=
        scanFrom_cons_separator hbreak ds src.line
      rw [hsrc, scanFrom_cons_separator hbreak]
      exact ⟨_, rfl, hnext.symm⟩

/-- **Where no statement is left**, the text is at its end, and goes on with what is behind it. -/
theorem scanFrom_followedBy_of_nil (h : (src.scanFrom open_ begun).flaw = none)
    (hbegun : begun = false) (hnil : (src.scanFrom open_ begun).tokens = []) :
    (src.scanFrom open_ begun).source.rest = [] ∧ (src.followedBy ds).scanFrom open_ begun
      = ((src.scanFrom open_ begun).source.followedBy ds).scan := by
  induction open_, begun, src using induction_on_moves with
  | skip open_ begun src next hmove ih =>
    rw [scanFrom_of_skip hmove] at h hnil ⊢
    rw [scanFrom_of_skip (skip_followedBy ds hmove)]
    exact ih h hbegun hnil
  | form open_ begun src kind text open' next hmove ih =>
    rw [scanFrom_of_form hmove] at hnil
    exact absurd hnil (List.cons_ne_nil _ _)
  | stop open_ begun src next flaw hmove =>
    rw [scanFrom_of_stop hmove] at h ⊢
    obtain rfl : flaw = none := h
    cases moves_of_eq hmove with
    | finished _ htrue _ => exact absurd (hbegun.symm.trans htrue) Bool.false_ne_true
    | ended hrest hopen =>
      subst hopen hbegun
      exact ⟨hrest, rfl⟩

end Source

end ScriptReader

import ScriptReader.Proofs.Source.Following
import ScriptReader.Source.Statement

/-!
# Proofs/Source/Layout — a source that lays out lines is scanned line by line

`Laid` says how the tokens of lines are laid out in a text: with blanks, comments and continued
lines anywhere between tokens, with line breaks and semicolons between statements and, where they
mean nothing, within brackets and before a statement's first token.  `scan_laid` says that scanning
such a text yields the next line and leaves the others laid out.
-/

namespace ScriptReader

open ScriptReader.Text

/-! ## Layout -/

/-- What separates statements. -/
def isSeparator (c : Char) : Bool := c == '\n' || c == ';'

/-- **The text lays out lines of tokens.**  Inside a statement that has `begun`, at some depth of
brackets, `ts` are its tokens to come and `lines` the statements after it; otherwise `lines` are all
that is to come.  A token is on the line that its text begins on. -/
inductive Laid :
    (depth : Nat) → (begun : Bool) → (line : Nat) → (ts : List Token) →
      (lines : List (List Token)) → List Char → Prop
  | done {begun : Bool} {line : Nat} : Laid 0 begun line [] [] []
  | blank {depth : Nat} {begun : Bool} {line : Nat} {ts : List Token} {lines : List (List Token)}
      {c : Char} {cs : List Char} (hc : isBlank c) (h : Laid depth begun line ts lines cs) :
      Laid depth begun line ts lines (c :: cs)
  | comment {depth : Nat} {begun : Bool} {line : Nat} {ts : List Token}
      {lines : List (List Token)} {text cs : List Char} (htext : '\n' ∉ text)
      (hcs : ∀ c ∈ cs.head?, c = '\n') (h : Laid depth begun line ts lines cs) :
      Laid depth begun line ts lines ('#' :: (text ++ cs))
  | continued {depth : Nat} {begun : Bool} {line : Nat} {ts : List Token}
      {lines : List (List Token)} {text cs : List Char}
      (htext : text = ['\n'] ∨ text = ['\r', '\n']) (h : Laid depth begun (line + 1) ts lines cs) :
      Laid depth begun line ts lines ('\\' :: (text ++ cs))
  | skipped {depth : Nat} {begun : Bool} {line : Nat} {ts : List Token} {lines : List (List Token)}
      {c : Char} {cs : List Char} (hc : isSeparator c) (hskip : begun = false ∨ 0 < depth)
      (h : Laid depth begun (line + [c].count '\n') ts lines cs) :
      Laid depth begun line ts lines (c :: cs)
  | separator {line : Nat} {lines : List (List Token)} {c : Char} {cs : List Char}
      (hc : isSeparator c) (h : Laid 0 false (line + [c].count '\n') [] lines cs) :
      Laid 0 true line [] lines (c :: cs)
  | first {t : Token} {ts : List Token} {lines : List (List Token)} {cs : List Char}
      (ht : t.IsLexeme) (hends : t.EndsBefore cs)
      (h : Laid (depthAfter 0 t.text) true (t.line + t.text.toList.count '\n') ts lines cs) :
      Laid 0 false t.line [] ((t :: ts) :: lines) (t.text.toList ++ cs)
  | token {depth : Nat} {t : Token} {ts : List Token} {lines : List (List Token)} {cs : List Char}
      (ht : t.IsLexeme) (hends : t.EndsBefore cs)
      (h : Laid (depthAfter depth t.text) true (t.line + t.text.toList.count '\n') ts lines cs) :
      Laid depth true t.line (t :: ts) lines (t.text.toList ++ cs)

/-! ## Open brackets -/

/-- The tokens close what is open, the innermost bracket first, and whatever they open. -/
inductive Closes : List Bracket → List Token → Prop
  | nil : Closes [] []
  | plain {t : Token} {open_ : List Bracket} {ts : List Token} (ht : t.IsPlain)
      (h : Closes open_ ts) : Closes open_ (t :: ts)
  | opener {b : Bracket} {t : Token} {open_ : List Bracket} {ts : List Token}
      (ht : t.text = b.openerText) (h : Closes (b :: open_) ts) : Closes open_ (t :: ts)
  | closer {b : Bracket} {t : Token} {open_ : List Bracket} {ts : List Token}
      (ht : t.text = b.closerText) (h : Closes open_ ts) : Closes (b :: open_) (t :: ts)

theorem Group.closes_append {g : List Token} (hg : Group g) :
    ∀ {open_ : List Bracket} {ts : List Token}, Closes open_ ts → Closes open_ (g ++ ts) := by
  induction hg with
  | token ht => exact fun h => .plain ht h
  | @bracketed b o c gs ho hc _ ih =>
    intro open_ ts h
    have flatten {gs : List (List Token)} (hgs : ∀ g ∈ gs, ∀ {open_ : List Bracket}
        {ts : List Token}, Closes open_ ts → Closes open_ (g ++ ts))
        {open_ : List Bracket} {ts : List Token} (h : Closes open_ ts) :
        Closes open_ (gs.flatten ++ ts) := by
      induction gs with
      | nil => exact h
      | cons g gs ihgs =>
        rw [List.flatten_cons, List.append_assoc]
        exact hgs g List.mem_cons_self (ihgs fun g hg => hgs g (List.mem_cons_of_mem _ hg))
    rw [List.cons_append, List.append_assoc]
    exact .opener ho (flatten ih (.closer hc h))

/-- **What is nested closes what it opens.** -/
theorem Nested.closes {ts : List Token} (h : Nested ts) : Closes [] ts := by
  obtain ⟨gs, hgs, rfl⟩ := h
  induction gs with
  | nil => exact .nil
  | cons g gs ih =>
    exact (hgs g List.mem_cons_self).closes_append
      (ih fun g hg => hgs g (List.mem_cons_of_mem _ hg))

/-- How many brackets are open behind a token, and what closes them. -/
theorem Closes.uncons {open_ : List Bracket} {t : Token} {ts : List Token}
    (h : Closes open_ (t :: ts)) :
    ∃ open', Closes open' ts ∧ open'.length = depthAfter open_.length t.text := by
  cases h with
  | plain ht h => exact ⟨open_, h, (depthAfter_of_isPlain ht _).symm⟩
  | @opener b _ _ _ ht h => exact ⟨b :: open_, h, by rw [ht, depthAfter_openerText]; rfl⟩
  | closer ht h => exact ⟨_, h, by rw [ht, depthAfter_closerText]; rfl⟩

namespace Brackets

variable {open_ : Brackets} {line : Nat} {t : Token} {b : Bracket}

theorem pass?_plain (ht : t.IsPlain) : open_.pass? line t.text.toList = some open_ := by
  unfold pass?
  split
  · next c hc =>
    have htext : t.text = String.ofList [c] := by rw [← hc, String.ofList_toList]
    have hopener : Bracket.ofOpener? c = none := by
      rw [Option.eq_none_iff_forall_ne_some]
      intro b hb
      have hbc := List.find?_some hb
      rw [beq_iff_eq] at hbc
      refine ht.ne_openerText b ?_
      rw [htext, b.openerText_eq, hbc]
      rfl
    have hcloser : Bracket.ofCloser? c = none := by
      rw [Option.eq_none_iff_forall_ne_some]
      intro b hb
      have hbc := List.find?_some hb
      rw [beq_iff_eq] at hbc
      refine ht.ne_closerText b ?_
      rw [htext, b.closerText_eq, hbc]
      rfl
    rw [hopener, hcloser]
  · rfl

theorem pass?_opener (ht : t.text = b.openerText) :
    open_.pass? line t.text.toList = some ((b, line) :: open_) := by
  rw [ht]
  cases b <;> rfl

theorem pass?_closer {n : Nat} (ht : t.text = b.closerText) :
    pass? ((b, n) :: open_) line t.text.toList = some open_ := by
  rw [ht]
  cases b <;> rfl

/-- **A token passes where the rest closes what is open**, and decides what is open behind it. -/
theorem exists_pass? {ts : List Token} (h : Closes (open_.map Prod.fst) (t :: ts)) :
    ∃ open' : Brackets, open_.pass? t.line t.text.toList = some open'
      ∧ open'.length = depthAfter open_.length t.text ∧ Closes (open'.map Prod.fst) ts := by
  generalize hstack : open_.map Prod.fst = stack at h
  cases h with
  | plain ht hts =>
    exact ⟨open_, pass?_plain ht, (depthAfter_of_isPlain ht _).symm, hstack ▸ hts⟩
  | @opener b _ _ _ ht hts =>
    refine ⟨(b, t.line) :: open_, pass?_opener ht, ?_, ?_⟩
    · rw [ht, depthAfter_openerText, List.length_cons]
    · rwa [List.map_cons, hstack]
  | @closer b _ outer _ ht hts =>
    obtain ⟨⟨b', n⟩, rest, rfl, rfl, rfl⟩ := List.map_eq_cons_iff.mp hstack
    refine ⟨rest, pass?_closer ht, ?_, hts⟩
    rw [ht, depthAfter_closerText, List.length_cons, Nat.add_sub_cancel]

end Brackets

/-! ## One piece -/

namespace Source

variable {open_ : Brackets} {begun : Bool} {src : Source} {text rest : List Char}

theorem scanFrom_blank (h : piece? src.rest = some (.blank text, rest)) :
    scanFrom open_ begun src = scanFrom open_ begun (src.after text rest) := by
  rw [scanFrom_unfold]
  split
  · next hn => cases h.symm.trans hn
  · next hp => cases h.symm.trans hp; rfl

theorem scanFrom_separator {c : Char} (h : piece? src.rest = some (.separator c, rest)) :
    scanFrom open_ begun src = if begun && open_.isEmpty then ⟨[], src.after [c] rest, none⟩
      else scanFrom open_ begun (src.after [c] rest) := by
  rw [scanFrom_unfold]
  split
  · next hn => cases h.symm.trans hn
  · next hp => cases h.symm.trans hp; rfl

theorem scanFrom_lexeme {kind : Kind} {open' : Brackets}
    (h : piece? src.rest = some (.lexeme kind text, rest))
    (hpass : open_.pass? src.line text = some open') :
    scanFrom open_ begun src
      = (scanFrom open' true (src.after text rest)).cons
          ⟨kind, String.ofList text, src.line⟩ := by
  rw [scanFrom_unfold]
  split
  · next hn => cases h.symm.trans hn
  · next hp =>
    cases h.symm.trans hp
    simp only [hpass]
    rfl

theorem scanFrom_nil {line : Nat} :
    scanFrom open_ begun ⟨[], line⟩ = scanEnd open_ ⟨[], line⟩ := by
  rw [scanFrom_unfold]
  split
  · rfl
  · next hp => cases hp

theorem piece?_blank {c : Char} {cs : List Char} (hc : isBlank c) :
    piece? (c :: cs) = some (.blank (c :: cs.takeWhile isBlank), cs.dropWhile isBlank) := by
  rw [piece?, pieceAt?, if_pos hc]

theorem count_newline_eq_zero {cs : List Char} (h : ∀ c ∈ cs, c ≠ '\n') : cs.count '\n' = 0 :=
  List.count_eq_zero.mpr fun hn => h '\n' hn rfl

theorem ne_newline_of_isBlank {c : Char} (h : isBlank c = true) : c ≠ '\n' := by
  rintro rfl
  exact absurd h (by decide)

/-- Blanks are passed over, however many there are. -/
theorem scanFrom_dropWhile (cs : List Char) (line : Nat) :
    scanFrom open_ begun ⟨cs, line⟩ = scanFrom open_ begun ⟨cs.dropWhile isBlank, line⟩ := by
  cases cs with
  | nil => rfl
  | cons c cs =>
    by_cases hc : isBlank c
    · have hcount : (c :: cs.takeWhile isBlank).count '\n' = 0 :=
        count_newline_eq_zero fun d hd => ne_newline_of_isBlank
          ((List.mem_cons.mp hd).elim (fun h => h ▸ hc) List.mem_takeWhile_imp)
      rw [scanFrom_blank (piece?_blank hc), List.dropWhile_cons_of_pos hc, after, hcount]
      rfl
    · rw [List.dropWhile_cons_of_neg hc]

theorem scanFrom_cons_blank {c : Char} (hc : isBlank c) (cs : List Char) (line : Nat) :
    scanFrom open_ begun ⟨c :: cs, line⟩ = scanFrom open_ begun ⟨cs, line⟩ := by
  rw [scanFrom_dropWhile, List.dropWhile_cons_of_pos hc, ← scanFrom_dropWhile]

theorem scanFrom_comment (htext : '\n' ∉ text) (hcs : ∀ c ∈ rest.head?, c = '\n') (line : Nat) :
    scanFrom open_ begun ⟨'#' :: (text ++ rest), line⟩ = scanFrom open_ begun ⟨rest, line⟩ := by
  have hall : ∀ c ∈ text, (c != '\n') = true := fun c hc =>
    bne_iff_ne.mpr fun h => htext (h ▸ hc)
  have hstop : ∀ c ∈ rest.head?, (c != '\n') = false := fun c hc => by
    rw [hcs c hc]
    rfl
  have hpiece : piece? ('#' :: (text ++ rest)) = some (.blank ('#' :: text), rest) := by
    rw [piece?, pieceAt?, if_neg (by decide), if_pos rfl, takeWhile_append_of_boundary hall hstop,
      dropWhile_append_of_boundary hall hstop]
  have hcount : ('#' :: text).count '\n' = 0 := count_newline_eq_zero fun c hc => by
    rcases List.mem_cons.mp hc with rfl | hc
    · decide
    · exact bne_iff_ne.mp (hall c hc)
  rw [scanFrom_blank hpiece, after, hcount]
  rfl

theorem scanFrom_continued (htext : text = ['\n'] ∨ text = ['\r', '\n']) (line : Nat) :
    scanFrom open_ begun ⟨'\\' :: (text ++ rest), line⟩
      = scanFrom open_ begun ⟨rest, line + 1⟩ := by
  rcases htext with rfl | rfl
  · exact @scanFrom_blank _ _ ⟨'\\' :: (['\n'] ++ rest), line⟩ _ _ rfl
  · exact @scanFrom_blank _ _ ⟨'\\' :: (['\r', '\n'] ++ rest), line⟩ _ _ rfl

theorem scanFrom_cons_separator {c : Char} (hc : isSeparator c) (cs : List Char) (line : Nat) :
    scanFrom open_ begun ⟨c :: cs, line⟩
      = if begun && open_.isEmpty then ⟨[], ⟨cs, line + [c].count '\n'⟩, none⟩
        else scanFrom open_ begun ⟨cs, line + [c].count '\n'⟩ := by
  rw [isSeparator, Bool.or_eq_true, beq_iff_eq, beq_iff_eq] at hc
  refine @scanFrom_separator _ _ ⟨c :: cs, line⟩ _ c ?_
  rw [piece?, pieceAt?]
  rcases hc with rfl | rfl <;> rfl

/-- A token is read, and what is open after it depends on its text. -/
theorem scanFrom_token {t : Token} {cs : List Char} {open' : Brackets} (ht : t.IsLexeme)
    (hends : t.EndsBefore cs) (hpass : open_.pass? t.line t.text.toList = some open') :
    scanFrom open_ begun ⟨t.text.toList ++ cs, t.line⟩
      = (scanFrom open' true ⟨cs, t.line + t.text.toList.count '\n'⟩).cons t := by
  have h := @scanFrom_lexeme _ begun ⟨t.text.toList ++ cs, t.line⟩ _ _ _ _
    (piece?_append ht hends) hpass
  rw [String.ofList_toList] at h
  exact h

end Source

/-! ## Line by line -/

/-- The tokens of the statement that is to be read next, or read on. -/
def nextTokens (begun : Bool) (ts : List Token) (lines : List (List Token)) : List Token :=
  if begun then ts else lines.headD []

/-- The statements after that. -/
def laterLines (begun : Bool) (lines : List (List Token)) : List (List Token) :=
  if begun then lines else lines.tail

/-- **Scanning a laid out text yields the tokens to come**, up to the end of their statement. -/
theorem scanFrom_laid {depth : Nat} {begun : Bool} {line : Nat} {ts : List Token}
    {lines : List (List Token)} {cs : List Char} (h : Laid depth begun line ts lines cs)
    {open_ : Brackets} (hopen : open_.length = depth)
    (hcloses : Closes (open_.map Prod.fst) (nextTokens begun ts lines)) :
    ∃ src, Source.scanFrom open_ begun ⟨cs, line⟩ = ⟨nextTokens begun ts lines, src, none⟩
      ∧ Laid 0 false src.line [] (laterLines begun lines) src.rest := by
  induction h generalizing open_ with
  | @done begun line =>
    obtain rfl := List.eq_nil_of_length_eq_zero hopen
    refine ⟨⟨[], line⟩, ?_, ?_⟩
    · rw [Source.scanFrom_nil]
      cases begun <;> rfl
    · cases begun <;> exact .done
  | blank hc _ ih =>
    rw [Source.scanFrom_cons_blank hc]
    exact ih hopen hcloses
  | comment htext hcs _ ih =>
    rw [Source.scanFrom_comment htext hcs]
    exact ih hopen hcloses
  | continued htext _ ih =>
    rw [Source.scanFrom_continued htext]
    exact ih hopen hcloses
  | @skipped depth begun line ts lines c cs hc hskip _ ih =>
    have hinside : (begun && open_.isEmpty) = false := by
      rcases hskip with rfl | hpos
      · rfl
      · rw [Bool.and_eq_false_iff]
        exact .inr (List.isEmpty_eq_false_iff.mpr
          (List.ne_nil_of_length_pos (by rw [hopen]; exact hpos)))
    rw [Source.scanFrom_cons_separator hc, if_neg (by rw [hinside]; exact Bool.false_ne_true)]
    exact ih hopen hcloses
  | @separator line lines c cs hc h _ =>
    obtain rfl := List.eq_nil_of_length_eq_zero hopen
    rw [Source.scanFrom_cons_separator hc]
    exact ⟨_, rfl, h⟩
  | @first t ts lines cs ht hends _ ih =>
    obtain rfl := List.eq_nil_of_length_eq_zero hopen
    obtain ⟨open', hpass, hlength, hrest⟩ := Brackets.exists_pass? hcloses
    obtain ⟨src, hscan, hlaid⟩ := ih hlength hrest
    rw [Source.scanFrom_token ht hends hpass, hscan]
    exact ⟨src, rfl, hlaid⟩
  | @token depth t ts lines cs ht hends _ ih =>
    obtain ⟨open', hpass, hlength, hrest⟩ := Brackets.exists_pass? hcloses
    obtain ⟨src, hscan, hlaid⟩ := ih (hopen ▸ hlength) hrest
    rw [Source.scanFrom_token ht hends hpass, hscan]
    exact ⟨src, rfl, hlaid⟩

/-- **The next line of a laid out text is scanned whole.** -/
theorem scan_laid {src : Source} {line : List Token} {lines : List (List Token)}
    (h : Laid 0 false src.line [] (line :: lines) src.rest) (hline : Nested line) :
    ∃ next, src.scan = ⟨line, next, none⟩ ∧ Laid 0 false next.line [] lines next.rest :=
  scanFrom_laid h (show ([] : Brackets).length = 0 from rfl) hline.closes

/-- Behind the last line there is nothing to scan. -/
theorem scan_laid_nil {src : Source} (h : Laid 0 false src.line [] [] src.rest) :
    ∃ next, src.scan = ⟨[], next, none⟩ := by
  obtain ⟨next, hscan, -⟩ := scanFrom_laid h (show ([] : Brackets).length = 0 from rfl) .nil
  exact ⟨next, hscan⟩

end ScriptReader

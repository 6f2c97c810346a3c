import ScriptReader.Proofs.Source.Following
import ScriptReader.Proofs.Source.Moves

/-!
# Proofs/Source/Stretch — a text falls apart into tokens and what stands between them

A `Stretch` of a text is a token, or trivia: blanks, a comment, a continued line or a separator of
statements (`Stretch.IsTrivia`).  `Source.Reads` says that stretches are read off a source one after
another.  Their texts and what is left then make up what there was (`Source.Reads.rest_eq`), the
line goes on by the line breaks in them (`Source.Reads.line_eq`), and their tokens stand at places
that do not overlap (`Stretch.pairwise_places`).
-/

namespace ScriptReader

/-- The line on which a script goes on behind some text. -/
def lineBehind (text : List Char) : Nat := 1 + text.count '\n'

theorem lineBehind_append (text more : List Char) :
    lineBehind (text ++ more) = lineBehind text + more.count '\n' := by
  rw [lineBehind, lineBehind, List.count_append, Nat.add_assoc]

/-! ## Stretches -/

/-- A stretch of a script's text. -/
inductive Stretch where
  | token (t : Token)
  /-- Blanks, a comment, or a line break that a backslash takes back. -/
  | blank (text : List Char)
  /-- A line break or a semicolon. -/
  | separator (mark : Char)

namespace Stretch

def text : Stretch → List Char
  | token t => t.text.toList
  | blank text => text
  | separator mark => [mark]

def token? : Stretch → Option Token
  | token t => some t
  | _ => none

/-- The text that stretches make up. -/
def textOf (ss : List Stretch) : List Char := ss.flatMap text

/-- The tokens among stretches. -/
def tokensOf (ss : List Stretch) : List Token := ss.filterMap token?

@[simp] theorem textOf_nil : textOf [] = [] := rfl

@[simp] theorem textOf_cons (s : Stretch) (ss : List Stretch) :
    textOf (s :: ss) = s.text ++ textOf ss := rfl

@[simp] theorem textOf_append (ss ss' : List Stretch) :
    textOf (ss ++ ss') = textOf ss ++ textOf ss' := List.flatMap_append

@[simp] theorem tokensOf_append (ss ss' : List Stretch) :
    tokensOf (ss ++ ss') = tokensOf ss ++ tokensOf ss' := List.filterMap_append

theorem eq_token_of_token? {s : Stretch} {t : Token} (h : s.token? = some t) : s = .token t := by
  cases s with
  | token u => exact congrArg token (Option.some.inj h)
  | blank => cases h
  | separator => cases h

/-- A token among others is a stretch among others. -/
theorem exists_of_tokensOf_eq {ss : List Stretch} {ts us : List Token} {t : Token}
    (h : tokensOf ss = ts ++ t :: us) :
    ∃ as bs, ss = as ++ .token t :: bs ∧ tokensOf as = ts ∧ tokensOf bs = us := by
  obtain ⟨as, rest, rfl, has, hrest⟩ := List.filterMap_eq_append_iff.mp h
  obtain ⟨blanks, s, bs, rfl, hblanks, hs, hbs⟩ := List.filterMap_eq_cons_iff.mp hrest
  obtain rfl := eq_token_of_token? hs
  have hnone : tokensOf blanks = [] := List.filterMap_eq_nil_iff.mpr hblanks
  refine ⟨as ++ blanks, bs, by rw [List.append_assoc], ?_, hbs⟩
  rw [tokensOf_append, hnone, List.append_nil]
  exact has

/-- **The stretch is trivia**, where `rest` is the text behind it. -/
inductive IsTrivia (rest : List Char) : Stretch → Prop
  | blanks {cs : List Char} (h : ∀ c ∈ cs, c = ' ' ∨ c = '\t' ∨ c = '\r') :
      IsTrivia rest (.blank cs)
  /-- A comment ends before its line break, or with the text. -/
  | comment {cs : List Char} (h : '\n' ∉ cs) (hrest : ∀ c ∈ rest.head?, c = '\n') :
      IsTrivia rest (.blank ('#' :: cs))
  | continued {cs : List Char} (h : cs = ['\n'] ∨ cs = ['\r', '\n']) :
      IsTrivia rest (.blank ('\\' :: cs))
  | separator {mark : Char} (h : mark = '\n' ∨ mark = ';') : IsTrivia rest (.separator mark)

/-! ## Places -/

/-- The tokens among stretches that begin at a place, with their own places. -/
def places (pos : Nat) : List Stretch → List (Nat × Token)
  | [] => []
  | s :: ss => (s.token?.map (pos, ·)).toList ++ places (pos + s.text.length) ss

theorem map_snd_places (pos : Nat) (ss : List Stretch) :
    (places pos ss).map Prod.snd = tokensOf ss := by
  induction ss generalizing pos with
  | nil => rfl
  | cons s ss ih =>
    rw [places, List.map_append, ih]
    cases s <;> rfl

/-- The place of a token is behind the text before it. -/
theorem exists_of_mem_places {pos : Nat} {ss : List Stretch} {p : Nat × Token}
    (h : p ∈ places pos ss) :
    ∃ as bs, ss = as ++ .token p.2 :: bs ∧ p.1 = pos + (textOf as).length := by
  induction ss generalizing pos with
  | nil => cases h
  | cons s ss ih =>
    rcases List.mem_append.mp h with h | h
    · obtain ⟨t, ht, rfl⟩ := Option.map_eq_some_iff.mp (Option.mem_toList.mp h)
      obtain rfl := eq_token_of_token? ht
      exact ⟨[], ss, rfl, rfl⟩
    · obtain ⟨as, bs, rfl, hpos⟩ := ih h
      refine ⟨s :: as, bs, rfl, ?_⟩
      rw [hpos, textOf_cons, List.length_append, Nat.add_assoc]

/-- **Tokens do not overlap**, and stand in order. -/
theorem pairwise_places (pos : Nat) (ss : List Stretch) :
    (places pos ss).Pairwise fun p q => p.1 + p.2.text.length ≤ q.1 := by
  induction ss generalizing pos with
  | nil => exact .nil
  | cons s ss ih =>
    rw [places]
    cases s with
    | token t =>
      refine .cons (fun q hq => ?_) (ih _)
      obtain ⟨as, bs, -, hpos⟩ := exists_of_mem_places hq
      exact hpos ▸ Nat.le_add_right _ _
    | blank => exact ih _
    | separator => exact ih _

end Stretch

open Stretch

/-! ## Pieces that are no tokens -/

/-- **What reads a piece that is no lexeme** off the character that it begins with. -/
inductive LayoutAt (c : Char) (cs : List Char) (r : Reading) : Prop
  | ofBlank (hc : isBlank c) (h : (.blank (c :: cs.takeWhile isBlank), cs.dropWhile isBlank) = r)
  | ofComment (hc : c = '#')
      (h : (.blank (c :: cs.takeWhile (· != '\n')), cs.dropWhile (· != '\n')) = r)
  | ofSeparator (hc : c = '\n' ∨ c = ';') (h : (.separator c, cs) = r)
  | ofBackslash (hc : c = '\\') (h : continuation cs = r)
  | ofQuote (hc : c = '"' ∨ c = '\'') (hopen : (stringTail c cs).closed = false)
      (h : (.brokenString (c :: (stringTail c cs).text), (stringTail c cs).rest) = r)

theorem exists_lexeme_numeral (cs : List Char) : ∃ text, (numeral cs).1 = .lexeme .number text := by
  unfold numeral decimal
  repeat' split
  all_goals exact ⟨_, rfl⟩

theorem exists_lexeme_operator? {c : Char} {cs : List Char} {r : Reading}
    (h : operator? c cs = some r) : ∃ text, r.1 = .lexeme .operator text := by
  unfold operator? at h
  repeat' split at h
  all_goals cases h <;> exact ⟨_, rfl⟩

theorem layoutAt_of_pieceAt? {c : Char} {cs : List Char} {r : Reading} (h : pieceAt? c cs = some r)
    (hr : ∀ kind text, r.1 ≠ .lexeme kind text) : LayoutAt c cs r := by
  rw [pieceAt?] at h
  repeat' split at h
  · next hc => exact .ofBlank hc (Option.some.inj h)
  · next hc => exact .ofComment hc (Option.some.inj h)
  · next hc => exact .ofSeparator hc (Option.some.inj h)
  · next hc => exact .ofBackslash hc (Option.some.inj h)
  · next hc =>
    obtain rfl := Option.some.inj h
    cases hclosed : (stringTail c cs).closed with
    | true =>
      rw [string, hclosed] at hr
      exact absurd rfl (hr _ _)
    | false =>
      refine .ofQuote hc hclosed ?_
      rw [string, hclosed]
      rfl
  · obtain rfl := Option.some.inj h
    obtain ⟨text, htext⟩ := exists_lexeme_numeral (c :: cs)
    exact absurd htext (hr _ _)
  · obtain rfl := Option.some.inj h
    exact absurd rfl (hr _ _)
  · obtain ⟨text, htext⟩ := exists_lexeme_operator? h
    exact absurd htext (hr _ _)

/-- **What is passed over is trivia.** -/
theorem isTrivia_of_blank {cs text rest : List Char}
    (hpiece : piece? cs = some (.blank text, rest)) : IsTrivia rest (.blank text) := by
  cases cs with
  | nil => cases hpiece
  | cons c cs =>
    cases layoutAt_of_pieceAt? hpiece nofun with
    | ofBlank hc h =>
      cases h
      refine .blanks fun d hd => ?_
      have hblank : isBlank d := (List.mem_cons.mp hd).elim (· ▸ hc) List.mem_takeWhile_imp
      simpa only [isBlank, Bool.or_eq_true, beq_iff_eq, or_assoc] using hblank
    | ofComment hc h =>
      cases h
      subst hc
      refine .comment (fun hn => ?_) fun d hd => ?_
      · have hne : ('\n' != '\n') = true := List.mem_takeWhile_imp (p := (· != '\n')) hn
        exact bne_iff_ne.mp hne rfl
      · have hstop := List.head?_dropWhile_not (· != '\n') cs
        rw [Option.mem_def.mp hd] at hstop
        simpa using hstop
    | ofSeparator _ h => cases h
    | ofBackslash hc h =>
      subst hc
      rw [continuation.eq_def] at h
      split at h <;> cases h
      · exact .continued (.inl rfl)
      · exact .continued (.inr rfl)
    | ofQuote _ _ h => cases h

theorem isTrivia_of_separator {cs rest : List Char} {mark : Char}
    (hpiece : piece? cs = some (.separator mark, rest)) : IsTrivia rest (.separator mark) := by
  cases cs with
  | nil => cases hpiece
  | cons c cs =>
    cases layoutAt_of_pieceAt? hpiece nofun with
    | ofBlank _ h => cases h
    | ofComment _ h => cases h
    | ofSeparator hc h =>
      cases h
      exact .separator hc
    | ofBackslash _ h =>
      rw [continuation.eq_def] at h
      split at h <;> cases h
    | ofQuote _ _ h => cases h

/-- A backslash is refused where no line break follows it. -/
theorem exists_of_brokenContinuation {cs text rest : List Char}
    (hpiece : piece? cs = some (.brokenContinuation text, rest)) :
    ∃ ds, cs = '\\' :: ds ∧ ∀ es, ds ≠ '\n' :: es ∧ ds ≠ '\r' :: '\n' :: es := by
  cases cs with
  | nil => cases hpiece
  | cons c cs =>
    cases layoutAt_of_pieceAt? hpiece nofun with
    | ofBlank _ h => cases h
    | ofComment _ h => cases h
    | ofSeparator _ h => cases h
    | ofBackslash hc h =>
      refine ⟨cs, by rw [hc], fun es => ⟨?_, ?_⟩⟩
      · rintro rfl
        cases h
      · rintro rfl
        cases h
    | ofQuote _ _ h => cases h

/-- A string is refused where it is not closed. -/
theorem exists_of_brokenString {cs text rest : List Char}
    (hpiece : piece? cs = some (.brokenString text, rest)) :
    ∃ quote ds, cs = quote :: ds ∧ (quote = '"' ∨ quote = '\'')
      ∧ (stringTail quote ds).closed = false := by
  cases cs with
  | nil => cases hpiece
  | cons c cs =>
    cases layoutAt_of_pieceAt? hpiece nofun with
    | ofBlank _ h => cases h
    | ofComment _ h => cases h
    | ofSeparator _ h => cases h
    | ofBackslash _ h =>
      rw [continuation.eq_def] at h
      split at h <;> cases h
    | ofQuote hc hopen _ => exact ⟨c, cs, rfl, hc, hopen⟩

/-- No piece is empty. -/
theorem text_ne_nil_of_piece? {cs : List Char} {r : Reading} (h : piece? cs = some r) :
    r.1.text ≠ [] := by
  cases cs with
  | nil => cases h
  | cons c cs => exact text_pieceAt?_ne_nil h

/-! ## Reading off -/

namespace Source

/-- **Stretches are read off a source**, one after another, and the second source is left.  Every
token is on the line of the source that it is read off. -/
inductive Reads : Source → List Stretch → Source → Prop
  | nil (src : Source) : Reads src [] src
  | token {src next : Source} {t : Token} {rest : List Char} {ss : List Stretch}
      (hrest : src.rest = t.text.toList ++ rest) (hne : t.text ≠ "") (hline : t.line = src.line)
      (h : Reads (src.after t.text.toList rest) ss next) : Reads src (.token t :: ss) next
  | trivia {src next : Source} {s : Stretch} {rest : List Char} {ss : List Stretch}
      (hrest : src.rest = s.text ++ rest) (hs : s.IsTrivia rest)
      (h : Reads (src.after s.text rest) ss next) : Reads src (s :: ss) next

namespace Reads

variable {src mid next : Source} {ss ss' : List Stretch} {s : Stretch} {t : Token}

theorem append (h : Reads src ss mid) (h' : Reads mid ss' next) : Reads src (ss ++ ss') next := by
  induction h with
  | nil => exact h'
  | token hrest hne hline _ ih => exact .token hrest hne hline (ih h')
  | trivia hrest hs _ ih => exact .trivia hrest hs (ih h')

/-- What is read one stretch after another can be read in two goes. -/
theorem split (h : Reads src (ss ++ ss') next) : ∃ mid, Reads src ss mid ∧ Reads mid ss' next := by
  induction ss generalizing src with
  | nil => exact ⟨src, .nil src, h⟩
  | cons s ss ih =>
    cases h with
    | token hrest hne hline h =>
      obtain ⟨mid, hss, hss'⟩ := ih h
      exact ⟨mid, .token hrest hne hline hss, hss'⟩
    | trivia hrest hs h =>
      obtain ⟨mid, hss, hss'⟩ := ih h
      exact ⟨mid, .trivia hrest hs hss, hss'⟩

/-- **Nothing is lost.** -/
theorem rest_eq (h : Reads src ss next) : src.rest = textOf ss ++ next.rest := by
  induction h with
  | nil => rfl
  | token hrest _ _ _ ih => rw [hrest, textOf_cons, List.append_assoc, ← ih]; rfl
  | trivia hrest _ _ ih => rw [hrest, textOf_cons, List.append_assoc, ← ih]; rfl

/-- **The line goes on by the line breaks that are read.** -/
theorem line_eq (h : Reads src ss next) : next.line = src.line + (textOf ss).count '\n' := by
  induction h with
  | nil => rfl
  | token _ _ _ _ ih => rw [ih, textOf_cons, List.count_append, ← Nat.add_assoc]; rfl
  | trivia _ _ _ ih => rw [ih, textOf_cons, List.count_append, ← Nat.add_assoc]; rfl

theorem of_token (h : Reads src (.token t :: ss) next) : t.text ≠ "" ∧ t.line = src.line := by
  cases h with
  | token hrest hne hline => exact ⟨hne, hline⟩
  | trivia hrest hs => cases hs

theorem of_trivia (h : Reads src (s :: ss) next) (hs : s.token? = none) :
    s.IsTrivia (textOf ss ++ next.rest) := by
  cases h with
  | token => cases hs
  | trivia hrest hs h => exact h.rest_eq ▸ hs

/-- A token among what is read off a script has the line of its place. -/
theorem line_of_token {before : List Char} {as bs : List Stretch}
    (hsrc : src.line = lineBehind before) (h : Reads src (as ++ .token t :: bs) next) :
    t.line = lineBehind (before ++ textOf as) := by
  obtain ⟨mid, has, hbs⟩ := h.split
  rw [hbs.of_token.2, has.line_eq, hsrc, lineBehind_append]

end Reads

end Source

end ScriptReader

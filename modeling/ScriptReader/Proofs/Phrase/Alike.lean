import Mathlib.Data.List.Forall2
import ScriptReader.Phrase.Segments

/-!
# Proofs/Phrase/Alike — what is done with a phrase does not depend on its lines

Two phrases are alike if their tokens differ in nothing but their lines, and those are related by
some relation `R` (`Phrase.Alike`).  Everything that is asked of a phrase has the same answer for
both, the parts that are cut out of them are alike (`Phrase.Alike.slice`, `Phrase.Alike.segments`),
and where both are refused, it is on related lines (`Phrase.Alike.refuse`).

A phrase that is not empty, or has a token next to it, is *anchored*: its messages point at the line
of some token.  What is cut out of an anchored phrase is anchored.
-/

namespace ScriptReader

variable {R : Nat → Nat → Prop}

/-! ## Tokens -/

/-- The tokens are the same but for their lines, which are related. -/
structure Token.Alike (R : Nat → Nat → Prop) (t u : Token) : Prop where
  kind_eq : t.kind = u.kind
  text_eq : t.text = u.text
  line : R t.line u.line

/-- Tokens that are alike one by one. -/
abbrev TokensAlike (R : Nat → Nat → Prop) : List Token → List Token → Prop :=
  List.Forall₂ (Token.Alike R)

namespace TokensAlike

variable {ts us : List Token} (h : TokensAlike R ts us)
include h

theorem map_text_eq : ts.map Token.text = us.map Token.text := by
  induction h with
  | nil => rfl
  | cons ht _ ih => rw [List.map_cons, List.map_cons, ht.text_eq, ih]

/-- At every place both have a token, or neither has. -/
theorem getElem?_cases (pos : Nat) :
    (ts[pos]? = none ∧ us[pos]? = none)
      ∨ ∃ t u, ts[pos]? = some t ∧ us[pos]? = some u ∧ t.Alike R u := by
  induction h generalizing pos with
  | nil => exact .inl ⟨rfl, rfl⟩
  | cons ht _ ih =>
    cases pos with
    | zero => exact .inr ⟨_, _, rfl, rfl, ht⟩
    | succ pos => exact ih pos

theorem findOutside?_eq (text : String) (depth : Nat) :
    findOutside? text depth ts = findOutside? text depth us := by
  induction h generalizing depth with
  | nil => rfl
  | cons ht _ ih => rw [findOutside?, findOutside?, ht.text_eq, ih]

theorem partner?_eq (own other : String) (level : Nat) :
    partner? own other level ts = partner? own other level us := by
  induction h generalizing level with
  | nil => rfl
  | cons ht _ ih => rw [partner?, partner?, ht.text_eq, ih, ih, ih]

/-- **They are split at the same places.** -/
theorem splitOutside (separator : String) (depth : Nat) :
    TokensAlike R (splitOutside separator depth ts).1 (splitOutside separator depth us).1
      ∧ List.Forall₂ (fun s s' => s.1.Alike R s'.1 ∧ TokensAlike R s.2 s'.2)
          (ScriptReader.splitOutside separator depth ts).2
          (ScriptReader.splitOutside separator depth us).2 := by
  induction h generalizing depth with
  | nil => exact ⟨.nil, .nil⟩
  | @cons t u ts us ht _ ih =>
    rw [ScriptReader.splitOutside, ScriptReader.splitOutside, ht.text_eq]
    split
    · obtain ⟨hfirst, hothers⟩ := ih 0
      exact ⟨.nil, .cons ⟨ht, hfirst⟩ hothers⟩
    · obtain ⟨hfirst, hothers⟩ := ih (depthAfter depth u.text)
      exact ⟨.cons ht hfirst, hothers⟩

end TokensAlike

/-! ## Problems -/

def Found.line : Found → Nat
  | token t => t.line
  | endOfStatement line => line

/-- The lines that the problem's wording names. -/
def Problem.lines : Problem → List Nat
  | notOpening found | noClosing found | notClosing found | noOpening found | notEnclosed _ found
  | colonMissing _ found | argumentsNotEnclosed found | malformedNumber found | notOperand found _
  | noMatchingBlock found | notEnd _ found | conditionMissing found | unexpectedInHeader found
  | inMissing found | iterableMissing found | parametersMissing found | malformedParameter _ found
  | valueAfterContinue found | assignedValueMissing found => [found.line]
  | adjacentOperands left right => [left.line, right.line]
  | expressionMissing line => [line]
  | _ => []

/-- The problems are of one kind, raised by one rule, and point at related lines. -/
structure Problem.Alike (R : Nat → Nat → Prop) (a b : Problem) : Prop where
  category_eq : a.category = b.category
  context_eq : a.context = b.context
  lines : List.Forall₂ R a.lines b.lines

/-- **Two runs go in parallel**: they come to related values, or to problems that are alike, on
related lines.  A problem of the text itself is none that a phrase is refused for. -/
inductive Parallel (R : Nat → Nat → Prop) {α β : Type} (Q : α → β → Prop) :
    Except Error α → Except Error β → Prop
  | ok {a : α} {b : β} (h : Q a b) : Parallel R Q (.ok a) (.ok b)
  | error {problem problem' : Problem} {line line' : Nat} (hread : problem.category ≠ .lexical)
      (hproblem : problem.Alike R problem') (hline : R line line') :
      Parallel R Q (.error (.script problem line)) (.error (.script problem' line'))

namespace Parallel

variable {α β α' β' : Type} {Q : α → β → Prop} {Q' : α' → β' → Prop} {x : Except Error α}
  {y : Except Error β}

theorem bind {f : α → Except Error α'} {g : β → Except Error β'} (h : Parallel R Q x y)
    (hf : ∀ a b, x = .ok a → Q a b → Parallel R Q' (f a) (g b)) :
    Parallel R Q' (x >>= f) (y >>= g) := by
  cases h with
  | ok h => exact hf _ _ rfl h
  | error hread hproblem hline => exact .error hread hproblem hline

theorem map {f : α → α'} {g : β → β'} (h : Parallel R Q x y) (hf : ∀ a b, Q a b → Q' (f a) (g b)) :
    Parallel R Q' (f <$> x) (g <$> y) := by
  cases h with
  | ok h => exact .ok (hf _ _ h)
  | error hread hproblem hline => exact .error hread hproblem hline

/-- Where both come to the same value, they go on from it. -/
theorem bind_eq {z w : Except Error α} {f : α → Except Error α'} {g : α → Except Error β'}
    (h : Parallel R Eq z w) (hf : ∀ a, z = .ok a → Parallel R Q' (f a) (g a)) :
    Parallel R Q' (z >>= f) (w >>= g) := h.bind fun a _ ha hab => hab ▸ hf a ha

/-- Lists that are related one by one are gone through in parallel. -/
theorem mapM {as : List α} {bs : List β} {f : α → Except Error α'} {g : β → Except Error α'}
    (h : List.Forall₂ Q as bs) (hf : ∀ a b, Q a b → Parallel R Eq (f a) (g b)) :
    Parallel R Eq (as.mapM f) (bs.mapM g) := by
  induction h with
  | nil => exact .ok rfl
  | cons hab _ ih =>
    rw [List.mapM_cons, List.mapM_cons]
    exact (hf _ _ hab).bind_eq fun _ _ => ih.bind_eq fun _ _ => .ok rfl

end Parallel

/-! ## Phrases -/

namespace Phrase

/-- **The phrases are alike**, and anchored. -/
structure Alike (R : Nat → Nat → Prop) (p q : Phrase) : Prop where
  tokens : TokensAlike R p.tokens q.tokens
  before : Option.Rel R p.lineBefore q.lineBefore
  after : Option.Rel R p.lineAfter q.lineAfter
  anchored : p.tokens ≠ [] ∨ p.lineBefore.isSome ∨ p.lineAfter.isSome

/-- Statements that are not empty are anchored. -/
theorem alike_whole {ts us : List Token} (h : TokensAlike R ts us) (hne : ts ≠ []) :
    (whole ts).Alike R (whole us) := ⟨h, .none, .none, .inl hne⟩

namespace Alike

variable {p q : Phrase} (h : p.Alike R q)
include h

theorem size_eq : p.size = q.size := h.tokens.length_eq

theorem isEmpty_eq : p.isEmpty = q.isEmpty := by
  cases hp : p.tokens <;> cases hq : q.tokens <;> have ht := h.tokens <;> rw [hp, hq] at ht
  · rw [isEmpty, isEmpty, hp, hq]
  · cases ht
  · cases ht
  · rw [isEmpty, isEmpty, hp, hq]; rfl

theorem map_text_eq (pos : Nat) :
    p.tokens[pos]?.map Token.text = q.tokens[pos]?.map Token.text := by
  rw [← List.getElem?_map, ← List.getElem?_map, h.tokens.map_text_eq]

theorem textAt_eq (pos : Nat) : p.textAt pos = q.textAt pos := by
  rw [textAt, textAt, h.map_text_eq]

theorem hasText_eq (pos : Nat) (text : String) : p.hasText pos text = q.hasText pos text := by
  rw [hasText, hasText, h.map_text_eq]

theorem startsWith_eq (text : String) : p.startsWith text = q.startsWith text := h.hasText_eq 0 text

theorem isOnly_eq (text : String) : p.isOnly text = q.isOnly text := by
  rw [isOnly, isOnly, h.tokens.map_text_eq]

theorem findOutside?_eq (text : String) : p.findOutside? text = q.findOutside? text :=
  h.tokens.findOutside?_eq text 0

theorem hasOutside_eq (text : String) : p.hasOutside text = q.hasOutside text := by
  rw [hasOutside, hasOutside, h.findOutside?_eq]

/-! ## Lines -/

omit h in
/-- Of two lines, the first there is. -/
theorem nearest {a a' b b' : Option Nat} (ha : Option.Rel R a a') (hb : Option.Rel R b b')
    (hsome : b.isSome ∨ a.isSome) : R ((a <|> b).getD 0) ((a' <|> b').getD 0) := by
  cases ha with
  | some hline => exact hline
  | none =>
    cases hb with
    | some hline => exact hline
    | none => simp at hsome

/-- Past the last token, the lines are those of the last tokens, or of the ones nearby. -/
theorem lineNear (pos : Nat) : R (p.lineNear pos) (q.lineNear pos) := by
  have hlast := h.tokens.getElem?_cases (p.tokens.length - 1)
  rw [← List.getLast?_eq_getElem?, h.tokens.length_eq, ← List.getLast?_eq_getElem?] at hlast
  rw [Phrase.lineNear, Phrase.lineNear]
  obtain ⟨hp, hq⟩ | ⟨t, u, hp, hq, ht⟩ := h.tokens.getElem?_cases pos
  · obtain ⟨hp', hq'⟩ | ⟨t, u, hp', hq', ht⟩ := hlast
    · rw [hp, hq, hp', hq']
      have hnil : p.tokens = [] := List.getLast?_eq_none_iff.mp hp'
      exact nearest h.after h.before (h.anchored.resolve_left (not_not.mpr hnil))
    · rw [hp, hq, hp', hq']
      exact ht.line
  · rw [hp, hq]
    exact ht.line

theorem found (pos : Nat) : R (p.found pos).line (q.found pos).line := by
  have hnear := h.lineNear pos
  rw [Phrase.found, Phrase.found]
  obtain ⟨hp, hq⟩ | ⟨t, u, hp, hq, ht⟩ := h.tokens.getElem?_cases pos
  · rw [hp, hq]
    exact hnear
  · rw [hp, hq]
    exact ht.line

/-- **Phrases that are alike are refused on related lines.** -/
theorem refuse {α β : Type} {Q : α → β → Prop} {problem problem' : Problem} (pos : Nat)
    (hproblem : problem.Alike R problem') (hread : (problem.category != .lexical) = true) :
    Parallel R Q (p.refuse pos problem) (q.refuse pos problem') :=
  .error (bne_iff_ne.mp hread) hproblem (h.lineNear pos)

/-! ## Cutting -/

theorem lineLeftOf (pos : Nat) : Option.Rel R (p.lineLeftOf pos) (q.lineLeftOf pos) := by
  rw [Phrase.lineLeftOf, Phrase.lineLeftOf]
  split
  · exact h.before
  · obtain ⟨hp, hq⟩ | ⟨t, u, hp, hq, ht⟩ := h.tokens.getElem?_cases (pos - 1)
    · rw [hp, hq]
      exact .none
    · rw [hp, hq]
      exact .some ht.line

theorem lineRightOf (pos : Nat) : Option.Rel R (p.lineRightOf pos) (q.lineRightOf pos) := by
  rw [Phrase.lineRightOf, Phrase.lineRightOf]
  obtain ⟨hp, hq⟩ | ⟨t, u, hp, hq, ht⟩ := h.tokens.getElem?_cases pos
  · rw [hp, hq]
    exact h.after
  · rw [hp, hq]
    exact .some ht.line

omit h in
/-- An empty part of a phrase has a token next to it, or else the phrase is empty itself. -/
theorem anchored_slice (hp : p.tokens ≠ [] ∨ p.lineBefore.isSome ∨ p.lineAfter.isSome)
    (first last : Nat) :
    (p.slice first last).tokens ≠ [] ∨ (p.slice first last).lineBefore.isSome
      ∨ (p.slice first last).lineAfter.isSome := by
  rw [tokens_slice]
  simp only [slice, Phrase.lineLeftOf, Phrase.lineRightOf, size]
  have hlength : 0 < p.tokens.length ∨ p.lineBefore.isSome ∨ p.lineAfter.isSome :=
    hp.imp_left List.length_pos_iff.mpr
  rw [Ne, ← List.length_eq_zero_iff, List.length_drop, List.length_take]
  grind

theorem slice (first last : Nat) : (p.slice first last).Alike R (q.slice first last) where
  tokens := by
    rw [tokens_slice, tokens_slice]
    exact List.forall₂_drop first (List.forall₂_take last h.tokens)
  before := by
    rw [Phrase.slice, Phrase.slice, h.size_eq]
    exact h.lineLeftOf _
  after := by
    rw [Phrase.slice, Phrase.slice, h.size_eq]
    exact h.lineRightOf _
  anchored := anchored_slice h.anchored first last

theorem take (pos : Nat) : (p.take pos).Alike R (q.take pos) := h.slice 0 pos

theorem drop (pos : Nat) : (p.drop pos).Alike R (q.drop pos) := by
  rw [Phrase.drop, Phrase.drop, h.size_eq]
  exact h.slice pos q.size

theorem trim (n : Nat) : (p.trim n).Alike R (q.trim n) := by
  rw [Phrase.trim, Phrase.trim, h.size_eq]
  exact h.slice n (q.size - n)

/-! ## Segments -/

omit h in
theorem ofSeparated {start start' : Nat} {before before' after after' : Option Nat}
    {first first' : List Token} {others others' : List (Token × List Token)}
    (hbefore : Option.Rel R before before') (hafter : Option.Rel R after after')
    (hfirst : TokensAlike R first first')
    (hothers : List.Forall₂ (fun s s' => s.1.Alike R s'.1 ∧ TokensAlike R s.2 s'.2) others others')
    (hanchored : first ≠ [] ∨ others ≠ [] ∨ before.isSome) :
    List.Forall₂ (Alike R) (ofSeparated start before after first others)
      (Phrase.ofSeparated start' before' after' first' others') := by
  induction hothers generalizing start start' before before' first first' with
  | nil =>
    refine .cons ⟨hfirst, hbefore, hafter, ?_⟩ .nil
    rcases hanchored with hne | hne | hsome
    · exact .inl hne
    · exact absurd rfl hne
    · exact .inr (.inl hsome)
  | cons hs _ ih =>
    rw [Phrase.ofSeparated, Phrase.ofSeparated]
    exact .cons ⟨hfirst, hbefore, .some hs.1.line, .inr (.inr rfl)⟩
      (ih (.some hs.1.line) hs.2 (.inr (.inr rfl)))

/-- **Segments are alike.** -/
theorem segments (separator : String) :
    List.Forall₂ (Alike R) (p.segments separator) (q.segments separator) := by
  rw [Phrase.segments, Phrase.segments, ← h.isEmpty_eq]
  split
  · exact .nil
  · next hempty =>
    obtain ⟨hfirst, hothers⟩ := h.tokens.splitOutside separator 0
    refine ofSeparated h.before h.after hfirst hothers ?_
    -- without a separator, the first segment is all of the phrase
    by_contra hnone
    rw [not_or, not_or, not_not, not_not] at hnone
    have hflatten := flatten_splitOutside separator 0 p.tokens
    rw [hnone.1, hnone.2.1] at hflatten
    rw [isEmpty, ← hflatten] at hempty
    exact hempty rfl

/-! ## Brackets -/

theorem closerOf (pos : Nat) : Parallel R Eq (p.closerOf pos) (q.closerOf pos) := by
  have hfound : List.Forall₂ R [(p.found pos).line] [(q.found pos).line] :=
    .cons (h.found pos) .nil
  rw [Phrase.closerOf, Phrase.closerOf, h.textAt_eq]
  split
  · exact h.refuse pos ⟨rfl, rfl, hfound⟩ rfl
  · have hbehind : TokensAlike R (p.tokens.drop pos) (q.tokens.drop pos) :=
      List.forall₂_drop pos h.tokens
    rw [hbehind.partner?_eq]
    split
    · exact .ok rfl
    · exact h.refuse pos ⟨rfl, rfl, hfound⟩ rfl

theorem openerOf (pos : Nat) : Parallel R Eq (p.openerOf pos) (q.openerOf pos) := by
  have hfound : List.Forall₂ R [(p.found pos).line] [(q.found pos).line] :=
    .cons (h.found pos) .nil
  rw [Phrase.openerOf, Phrase.openerOf, h.textAt_eq]
  split
  · exact h.refuse pos ⟨rfl, rfl, hfound⟩ rfl
  · have hbefore : TokensAlike R (p.tokens.take (pos + 1)).reverse
        (q.tokens.take (pos + 1)).reverse :=
      List.forall₂_reverse_iff.mpr (List.forall₂_take (pos + 1) h.tokens)
    rw [hbefore.partner?_eq]
    split
    · exact .ok rfl
    · exact h.refuse pos ⟨rfl, rfl, hfound⟩ rfl

theorem isEnclosed (b : Bracket) : Parallel R Eq (p.isEnclosed b) (q.isEnclosed b) := by
  rw [Phrase.isEnclosed, Phrase.isEnclosed, h.startsWith_eq, h.size_eq]
  split
  · exact (h.closerOf 0).map fun last last' heq => by rw [heq]
  · exact .ok rfl

end Alike

end Phrase

end ScriptReader

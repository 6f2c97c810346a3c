import ScriptReader.Proofs.Phrase.Formed

/-!
# Proofs/Phrase/Safe — nothing that is done with a sound phrase goes out of bounds

A sound phrase lies within its line, so that its tokens are tokens of the line.  The brackets in it
have their partners in it, and counting up to them the level does not go below zero
(`countPartner?`); its items lie within it; and the quotes of its string literals can be cut off
between characters.  `Phrase.Safe` is all of this.
-/

namespace ScriptReader

open ScriptReader.Bracket ScriptReader.Text

/-! ## Counting that does not go below zero -/

/-- Counts like `partner?`, but finds nothing if the level would have to go below zero. -/
def countPartner? (own other : String) (level : Nat) : List Token → Option Nat
  | [] => none
  | t :: ts =>
    if t.text = own then (countPartner? own other (level + 1) ts).map (· + 1)
    else if t.text = other then
      if level = 0 then none
      else if level = 1 then some 0 else (countPartner? own other (level - 1) ts).map (· + 1)
    else (countPartner? own other level ts).map (· + 1)

/-- Once a bracket has been met, the level does not go below zero. -/
theorem countPartner?_eq {own other : String} {level : Nat} (ts : List Token) (h : 1 ≤ level) :
    countPartner? own other level ts = partner? own other level ts := by
  induction ts generalizing level with
  | nil => rfl
  | cons t ts ih =>
    rw [countPartner?, partner?, if_neg (Nat.one_le_iff_ne_zero.mp h)]
    rcases Nat.eq_or_lt_of_le h with rfl | hlt
    · rw [if_pos rfl, if_pos (Nat.le_refl 1), ih (Nat.le_succ 1), ih (Nat.le_refl 1)]
    · rw [if_neg hlt.ne', if_neg (Nat.not_le_of_gt hlt), ih (Nat.le_succ_of_le h), ih h,
        ih (Nat.le_sub_one_of_lt hlt)]

theorem countPartner?_cons {own other : String} {t : Token} {ts : List Token} (h : t.text = own) :
    countPartner? own other 0 (t :: ts) = partner? own other 0 (t :: ts) := by
  rw [countPartner?, partner?, if_pos h, if_pos h, countPartner?_eq ts (Nat.le_refl 1)]

/-! ## Quotes -/

/-- The kinds of string literals. -/
def stringKinds : List Kind := [.apostropheString, .quotedString, .longString]

namespace StringTail

variable {quote : Char} {cs : List Char}

theorem exists_short (h : (short quote cs).closed = true) :
    ∃ body, (short quote cs).text = body ++ [quote] := by
  fun_induction short quote cs with
  | case1 => cases h
  | case2 c cs ih =>
    obtain ⟨body, hbody⟩ := ih h
    exact ⟨'\\' :: c :: body, by rw [text_prepend, hbody]; rfl⟩
  | case3 => exact ⟨[], rfl⟩
  | case4 => cases h
  | case5 c cs _ _ _ ih =>
    obtain ⟨body, hbody⟩ := ih h
    exact ⟨c :: body, by rw [text_prepend, hbody]; rfl⟩

theorem exists_long (h : (long quote cs).closed = true) :
    ∃ body, (long quote cs).text = body ++ [quote, quote, quote] := by
  fun_induction long quote cs with
  | case1 => cases h
  | case2 c cs ih =>
    obtain ⟨body, hbody⟩ := ih h
    exact ⟨'\\' :: c :: body, by rw [text_prepend, hbody]; rfl⟩
  | case3 c cs _ hq => exact ⟨[], by rw [hq.2, hq.1]; rfl⟩
  | case4 c cs _ _ ih =>
    obtain ⟨body, hbody⟩ := ih h
    exact ⟨c :: body, by rw [text_prepend, hbody]; rfl⟩

end StringTail

/-- A string begins with a quote. -/
theorem quote_of_pieceAt? {c : Char} {kind : Kind} {text cs rest : List Char}
    (h : pieceAt? c cs = some (.lexeme kind text, rest)) (hkind : kind ∈ stringKinds) :
    (c = '"' ∨ c = '\'') ∧ string c cs = (.lexeme kind text, rest) := by
  rw [pieceAt?] at h
  repeat' split at h
  · cases h
  · cases h
  · cases h
  · rw [Option.some.injEq] at h
    unfold continuation at h
    repeat' split at h
    all_goals cases h
  · next hquote => exact ⟨hquote, Option.some.inj h⟩
  · rw [kind_numeral (Option.some.inj h)] at hkind
    exact absurd hkind (by decide)
  · rcases kind_word (Option.some.inj h) with rfl | rfl <;> exact absurd hkind (by decide)
  · rw [kind_operator? h] at hkind
    exact absurd hkind (by decide)

/-- **A string literal has its quotes at either end.** -/
theorem Token.IsLexeme.exists_quotes {t : Token} (h : t.IsLexeme) (hkind : t.kind ∈ stringKinds) :
    ∃ opening body closing, t.text.toList = opening ++ body ++ closing
      ∧ byteCount opening = Literal.quoteCount t.kind
      ∧ byteCount closing = Literal.quoteCount t.kind := by
  obtain ⟨kind, text, line⟩ := t
  rw [IsLexeme] at h
  dsimp only at h hkind ⊢
  generalize text.toList = text at h ⊢
  cases text with
  | nil => cases h
  | cons c cs =>
    obtain ⟨hquote, hstring⟩ := quote_of_pieceAt? h hkind
    have hone : byteCount [c] = 1 := by rcases hquote with rfl | rfl <;> rfl
    have hclosed := closed_of_string hstring
    obtain rfl := kind_string hstring
    simp only [string, hclosed, if_true, Prod.mk.injEq, Piece.lexeme.injEq, List.cons.injEq,
      true_and] at hstring
    obtain ⟨htext, -⟩ := hstring
    rw [stringTail] at hclosed htext
    cases htripled : isTripled c cs with
    | true =>
      rw [htripled, if_pos rfl] at hclosed htext
      obtain ⟨body, hbody⟩ := StringTail.exists_long hclosed
      have hkind' : stringKind c cs = .longString := by rw [stringKind, htripled]; rfl
      have hthree : byteCount [c, c, c] = 3 := by rcases hquote with rfl | rfl <;> rfl
      refine ⟨[c, c, c], body, [c, c, c], ?_, ?_, ?_⟩
      · rw [← htext, StringTail.text_prepend, beq_iff_eq.mp htripled, hbody]
        rfl
      · rw [hkind']; exact hthree
      · rw [hkind']; exact hthree
    | false =>
      rw [htripled, if_neg Bool.false_ne_true] at hclosed htext
      obtain ⟨body, hbody⟩ := StringTail.exists_short hclosed
      have hcount : Literal.quoteCount (stringKind c cs) = 1 := by
        rw [stringKind, htripled, if_neg Bool.false_ne_true]
        split <;> rfl
      exact ⟨[c], body, [c], by rw [← htext, hbody]; rfl, hone.trans hcount.symm,
        hone.trans hcount.symm⟩

/-- **The quotes of a literal can be cut off between characters**, and do not overlap. -/
theorem Token.IsLexeme.isSome_slice? {t : Token} (h : t.IsLexeme) (hkind : t.kind ∈ stringKinds) :
    2 * Literal.quoteCount t.kind ≤ byteCount t.text.toList
      ∧ (slice? (Literal.quoteCount t.kind)
          (byteCount t.text.toList - Literal.quoteCount t.kind) t.text.toList).isSome := by
  obtain ⟨opening, body, closing, htext, hopening, hclosing⟩ := h.exists_quotes hkind
  have hcount : byteCount t.text.toList
      = byteCount opening + byteCount body + byteCount closing := by
    rw [htext, byteCount_append, byteCount_append]
  refine ⟨by omega, ?_⟩
  have hlast : byteCount t.text.toList - Literal.quoteCount t.kind
      = byteCount opening + byteCount body := by omega
  rw [hlast, ← hopening, htext, slice?_append]
  rfl

/-! ## Safe phrases -/

namespace Phrase

/-- **Whatever is done with the phrase stays within bounds.** -/
structure Safe (line : List Token) (p : Phrase) : Prop where
  nested : Nested p.tokens
  /-- The phrase ends within the line. -/
  stop_le : p.stop ≤ line.length
  /-- Its tokens are those of the line, from where it starts. -/
  token : ∀ pos < p.size, p.tokens[pos]? = (line.drop p.start)[pos]?
  /-- An opening bracket has its partner to the right. -/
  closer : ∀ (b : Bracket) (pos : Nat), p.textAt pos = b.openerText → ∃ k,
    countPartner? b.openerText b.closerText 0 (p.tokens.drop pos) = some k
      ∧ p.closerOf pos = .ok (pos + k) ∧ pos + k < p.size
  /-- A closing bracket has its partner to the left. -/
  opener : ∀ (b : Bracket) (pos : Nat), p.textAt pos = b.closerText → ∃ k,
    countPartner? b.closerText b.openerText 0 (p.tokens.take (pos + 1)).reverse = some k
      ∧ p.openerOf pos = .ok (pos - k) ∧ k ≤ pos
  /-- The phrase has items, which lie in it. -/
  items : ∃ items, p.items = .ok items ∧ ∀ x ∈ items,
    x.tokens ≠ [] ∧ x.place + x.tokens.length ≤ p.size
  /-- The quotes of string literals are cut off between characters. -/
  literal : ∀ t ∈ p.tokens, t.kind ∈ stringKinds →
    2 * Literal.quoteCount t.kind ≤ byteCount t.text.toList
      ∧ (slice? (Literal.quoteCount t.kind)
          (byteCount t.text.toList - Literal.quoteCount t.kind) t.text.toList).isSome

namespace Sound

variable {line : List Token} {p : Phrase}

theorem getElem?_eq (h : p.Sound line) {pos : Nat} (hpos : pos < p.size) :
    p.tokens[pos]? = (line.drop p.start)[pos]? := by
  obtain ⟨before, after, rfl, hstart⟩ := h.liesIn
  rw [List.getElem?_drop, ← hstart, List.getElem?_append_right (Nat.le_add_right _ _),
    Nat.add_sub_cancel_left, List.getElem?_append_left hpos]

theorem stop_le (h : p.Sound line) : p.stop ≤ line.length := by
  obtain ⟨before, after, rfl, hstart⟩ := h.liesIn
  rw [List.length_append, List.length_append, hstart, stop, size]
  omega

/-- The tokens before and behind one that has a text. -/
theorem exists_append_of_textAt {pos : Nat} {text : String} (htext : p.textAt pos = text)
    (hne : text ≠ "") : ∃ before t behind, p.tokens = before ++ t :: behind ∧ before.length = pos
      ∧ t.text = text := by
  cases hget : p.tokens[pos]? with
  | none =>
    rw [textAt, hget] at htext
    exact absurd htext.symm hne
  | some t =>
    obtain ⟨hpos, rfl⟩ := List.getElem?_eq_some_iff.mp hget
    refine ⟨p.tokens.take pos, p.tokens[pos], p.tokens.drop (pos + 1), ?_,
      List.length_take_of_le hpos.le, ?_⟩
    · rw [← List.drop_eq_getElem_cons hpos, List.take_append_drop]
    · rwa [textAt, hget] at htext

theorem closer (h : p.Sound line) {b : Bracket} {pos : Nat} (htext : p.textAt pos = b.openerText) :
    ∃ k, countPartner? b.openerText b.closerText 0 (p.tokens.drop pos) = some k
      ∧ p.closerOf pos = .ok (pos + k) ∧ pos + k < p.size := by
  obtain ⟨before, o, behind, hp, rfl, ho⟩ := exists_append_of_textAt htext (by cases b <;> decide)
  obtain ⟨inner, c, rest, rfl, hc, hinner⟩ := ((hp ▸ h.nested).exists_partner b).1 ho
  have hdrop : p.tokens.drop before.length = o :: (inner ++ c :: rest) := by
    rw [hp, List.drop_left]
  have hcloser := closerOf_eq before.length b hdrop ho hc hinner
  refine ⟨inner.length + 1, ?_, hcloser, (closerOf_bounds hcloser).2⟩
  rw [hdrop, countPartner?_cons ho, partner?_opener b ho hc hinner]

theorem opener (h : p.Sound line) {b : Bracket} {pos : Nat} (htext : p.textAt pos = b.closerText) :
    ∃ k, countPartner? b.closerText b.openerText 0 (p.tokens.take (pos + 1)).reverse = some k
      ∧ p.openerOf pos = .ok (pos - k) ∧ k ≤ pos := by
  obtain ⟨before, c, behind, hp, rfl, hc⟩ := exists_append_of_textAt htext (by cases b <;> decide)
  obtain ⟨rest, o, inner, rfl, ho, hinner⟩ := ((hp ▸ h.nested).exists_partner b).2 hc
  have hp' : p.tokens = rest ++ o :: (inner ++ c :: behind) := by
    rw [hp, List.append_assoc, List.cons_append]
  have hlen : (rest ++ o :: inner).length = rest.length + inner.length + 1 := by
    rw [List.length_append, List.length_cons, Nat.add_assoc]
  have htake : (p.tokens.take ((rest ++ o :: inner).length + 1)).reverse
      = c :: (inner.reverse ++ o :: rest.reverse) := by
    rw [hp, List.take_length_add_append]
    simp
  refine ⟨inner.length + 1, ?_, ?_, by omega⟩
  · rw [htake, countPartner?_cons hc, partner?_closer b ho hc hinner]
  · rw [hlen, openerOf_eq b hp' ho hc hinner]
    exact congrArg Except.ok (by omega)

/-- **Whatever is done with a sound phrase stays within bounds.** -/
theorem safe (h : p.Sound line) : p.Safe line where
  nested := h.nested
  stop_le := h.stop_le
  token _ hpos := h.getElem?_eq hpos
  closer _ _ htext := h.closer htext
  opener _ _ htext := h.opener htext
  items := by
    obtain ⟨gs, hgs, hp⟩ := h.nested
    refine ⟨_, items_eq hp.symm hgs, fun x hx => ?_⟩
    obtain ⟨as, bs, rfl, hplace, -⟩ := exists_append_of_mem_itemsFrom hx
    refine ⟨(hgs _ (by simp)).ne_nil, ?_⟩
    rw [size, ← hp, hplace, List.flatten_append, List.flatten_cons, List.length_append,
      List.length_append]
    omega
  literal t ht hkind := (h.isScanned t ht).isSome_slice? hkind

end Sound

end Phrase

end ScriptReader

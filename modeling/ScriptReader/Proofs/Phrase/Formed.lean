import Mathlib.Logic.Relation
import ScriptReader.Proofs.Expr.Covered
import ScriptReader.Proofs.Phrase.Cutting
import ScriptReader.Proofs.Source.Balanced

/-!
# Proofs/Phrase/Formed — the phrases that are formed while a line is read

Reading cuts a line into phrases, and these into others: `Phrase.Cut` lists the ways, one for each
kind of sub-range that the rules form.  A phrase is `Sound` if it is a stretch of its line whose
tokens are nested lexemes; by `Phrase.Sound.cut` every cut keeps that, so that every phrase that is
formed from a sound one is sound (`Phrase.Sound.formed`).
-/

namespace ScriptReader

open ScriptReader.Bracket

namespace Phrase

/-! ## Cuts -/

/-- **One phrase is cut out of another** in the course of reading. -/
inductive Cut (p : Phrase) : Phrase → Prop
  /-- What brackets around the whole phrase enclose. -/
  | enclosed {b : Bracket} (h : p.isEnclosed b = .ok true) : Cut p (p.trim 1)
  /-- What stands left of the operator that binds last. -/
  | left {d : Division} (h : p.lowest = .ok (some d)) : Cut p d.left
  /-- What stands right of it, or in its brackets. -/
  | right {d : Division} (h : p.lowest = .ok (some d)) : Cut p d.right
  /-- What stands between two separators. -/
  | segment {separator : String} {q : Phrase} (hs : separator ∈ [",", ":"])
      (h : q ∈ p.segments separator) : Cut p q
  /-- What is left behind tokens in front that are no brackets, such as a keyword. -/
  | onward {pos : Nat} (h : ∀ t ∈ p.tokens.take pos, t.IsPlain) : Cut p (p.drop pos)
  /-- The same, up to a text outside all brackets. -/
  | upTo {text : String} {pos k : Nat} (h : ∀ t ∈ p.tokens.take pos, t.IsPlain)
      (hk : p.findOutside? text = some k) : Cut p (p.slice pos k)
  /-- What stands behind a text outside all brackets that is no bracket itself. -/
  | behind {text : String} {k : Nat} (htext : text ∈ [":", "=", ":=", "in"])
      (hk : p.findOutside? text = some k) : Cut p (p.drop (k + 1))
  /-- The parameters of a function, in the first parentheses outside all brackets. -/
  | parameters {k last : Nat} (hk : p.findOutside? round.openerText = some k)
      (hlast : p.closerOf k = .ok last) : Cut p (p.slice (k + 1) last)
  /-- The index that the phrase ends in. -/
  | index {first : Nat} (hlast : p.hasText (p.size - 1) square.closerText)
      (hfirst : p.openerOf (p.size - 1) = .ok first) : Cut p (p.slice (first + 1) (p.size - 1))
  /-- What that is an index of. -/
  | indexed {first : Nat} (hlast : p.hasText (p.size - 1) square.closerText)
      (hfirst : p.openerOf (p.size - 1) = .ok first) : Cut p (p.take first)

/-- The second phrase is formed while the first one is read. -/
abbrev Formed : Phrase → Phrase → Prop := Relation.ReflTransGen Cut

variable {line : List Token} {p q : Phrase} {text : String} {k pos first last : Nat}

/-! ## Stretches of a line -/

/-- The phrase is a stretch of the line. -/
def LiesIn (line : List Token) (p : Phrase) : Prop :=
  ∃ before after, line = before ++ (p.tokens ++ after) ∧ before.length = p.start

theorem LiesIn.whole (line : List Token) : (whole line).LiesIn line :=
  ⟨[], [], by rw [List.append_nil]; rfl, rfl⟩

theorem LiesIn.slice (h : p.LiesIn line) (first last : Nat) : (p.slice first last).LiesIn line := by
  obtain ⟨before, after, rfl, hstart⟩ := h
  refine ⟨before ++ p.tokens.take (min first (min last p.size)),
    p.tokens.drop (min last p.size) ++ after, ?_, ?_⟩
  · have hsplit : p.tokens.take (min first (min last p.size))
        ++ ((p.slice first last).tokens ++ p.tokens.drop (min last p.size)) = p.tokens := by
      have hmin : min first (min last p.size) ≤ min last p.size := Nat.min_le_right _ _
      rw [Phrase.slice]
      dsimp only
      rw [← Nat.add_sub_cancel' hmin, ← List.drop_drop, Nat.add_sub_cancel' hmin,
        List.take_append_drop, List.take_append_drop]
    conv_lhs => rw [← hsplit]
    rw [List.append_assoc, List.append_assoc, List.append_assoc]
  · rw [List.length_append, hstart, List.length_take_of_le]
    · rfl
    · exact Nat.le_trans (Nat.min_le_right _ _) (Nat.min_le_right _ _)

theorem LiesIn.of_mem_ofSeparated {start : Nat} {before after : Option Nat} {first : List Token}
    {others : List (Token × List Token)} {as bs : List Token} (hstart : as.length = start)
    (hline : line = as ++ (first ++ (others.flatMap (fun s => s.1 :: s.2) ++ bs)))
    (hq : q ∈ ofSeparated start before after first others) : q.LiesIn line := by
  induction others generalizing start before first as with
  | nil =>
    obtain rfl := List.mem_singleton.mp hq
    exact ⟨as, bs, hline, hstart⟩
  | cons s others ih =>
    rcases List.mem_cons.mp hq with rfl | hq
    · exact ⟨as, (s :: others).flatMap (fun s => s.1 :: s.2) ++ bs, hline, hstart⟩
    · have hlen : (as ++ first ++ [s.1]).length = start + first.length + 1 := by
        simp only [List.length_append, List.length_cons, List.length_nil, hstart]
      exact ih hlen (by rw [hline]; simp) hq

theorem LiesIn.segment {separator : String} (h : p.LiesIn line) (hq : q ∈ p.segments separator) :
    q.LiesIn line := by
  obtain ⟨before, after, hline, hstart⟩ := h
  unfold segments at hq
  split at hq
  · cases hq
  · rw [← flatten_splitOutside separator 0 p.tokens, List.append_assoc] at hline
    exact LiesIn.of_mem_ofSeparated hstart hline hq

/-! ## Cuts of a beginning -/

/-- A stretch of what stands before a position is a stretch of the phrase. -/
theorem slice_take (hfirst : first ≤ last) (hlast : last ≤ pos) (hpos : pos ≤ p.size) :
    (p.take pos).slice first last = p.slice first last := by
  rw [take, slice_slice (Nat.zero_le _) hpos hfirst (by omega), Nat.zero_add, Nat.zero_add]

/-! ## Sound phrases -/

/-- **The phrase is a stretch of the line, and its tokens are nested lexemes.** -/
structure Sound (line : List Token) (p : Phrase) : Prop where
  liesIn : p.LiesIn line
  nested : Nested p.tokens
  isScanned : p.IsScanned

namespace Sound

theorem slice (h : p.Sound line) (hn : Nested ((p.tokens.take last).drop first)) :
    (p.slice first last).Sound line :=
  ⟨h.liesIn.slice _ _, tokens_slice first last p ▸ hn, h.isScanned.slice _ _⟩

theorem onward (h : p.Sound line) (hplain : ∀ t ∈ p.tokens.take pos, t.IsPlain) :
    (p.drop pos).Sound line :=
  h.slice (by rw [size, List.take_length]; exact h.nested.dropPlain hplain)

theorem upTo (h : p.Sound line) (hplain : ∀ t ∈ p.tokens.take pos, t.IsPlain)
    (hk : p.findOutside? text = some k) : (p.slice pos k).Sound line := by
  refine h.slice ((h.nested.take hk).dropPlain fun t ht => hplain t ?_)
  rw [List.take_take, Nat.min_comm, ← List.take_take] at ht
  exact List.mem_of_mem_take ht

theorem behind (h : p.Sound line) (htext : text ∈ [":", "=", ":=", "in"])
    (hk : p.findOutside? text = some k) : (p.drop (k + 1)).Sound line := by
  have hbracket : ∀ text ∈ [":", "=", ":=", "in"],
      ofOpenerText? text = none ∧ ofCloserText? text = none := by decide
  obtain ⟨ho, hc⟩ := hbracket text htext
  exact h.slice (by rw [size, List.take_length]; exact h.nested.drop hk ho hc)

theorem segment {separator : String} (h : p.Sound line) (hs : separator ∈ [",", ":"])
    (hq : q ∈ p.segments separator) : q.Sound line := by
  have hbracket : ∀ separator ∈ [",", ":"],
      ofOpenerText? separator = none ∧ ofCloserText? separator = none := by decide
  obtain ⟨ho, hc⟩ := hbracket separator hs
  exact ⟨h.liesIn.segment hq, nested_of_mem_segments h.nested ho hc hq, h.isScanned.segment hq⟩

theorem enclosed {b : Bracket} (h : p.Sound line) (henclosed : p.isEnclosed b = .ok true) :
    (p.trim 1).Sound line := by
  rcases exists_isEnclosed b h.nested with hno | ⟨-, hn⟩
  · cases hno.symm.trans henclosed
  · exact ⟨h.liesIn.slice _ _, hn, h.isScanned.slice _ _⟩

theorem lowest {d : Division} (h : p.Sound line) (hd : p.lowest = .ok (some d)) :
    d.left.Sound line ∧ d.right.Sound line := by
  obtain ⟨hleft, hright⟩ := nested_of_lowest h.nested hd
  obtain ⟨hls, hrs⟩ := Expr.isScanned_of_lowest h.isScanned hd
  obtain ⟨pos, first, last, hl, hr⟩ := exists_slices_of_lowest hd
  exact ⟨⟨hl ▸ h.liesIn.slice _ _, hleft, hls⟩, ⟨hr ▸ h.liesIn.slice _ _, hright, hrs⟩⟩

/-- The first parentheses outside all brackets are closed, and what they enclose is sound. -/
theorem parameters (h : p.Sound line) (hk : p.findOutside? round.openerText = some k) :
    ∃ last, p.closerOf k = .ok last ∧ (p.slice (k + 1) last).Sound line := by
  obtain ⟨as, o, bs, hp, rfl, ho, -, hbs⟩ := h.nested.exists_cut hk
  obtain ⟨inner, c, rest, rfl, hc, hinner⟩ := hbs.exists_closer ho
  have hdrop : p.tokens.drop as.length = o :: (inner ++ c :: rest) := by rw [hp, List.drop_left]
  refine ⟨_, closerOf_eq as.length .round hdrop ho hc hinner, h.liesIn.slice _ _, ?_,
    h.isScanned.slice _ _⟩
  rwa [← Nat.add_assoc, tokens_slice_of_bracketed hp]

/-- An index at the end is opened in the phrase; it is sound, and so is what stands before it. -/
theorem index (h : p.Sound line) (hlast : p.hasText (p.size - 1) square.closerText) :
    ∃ first, first < p.size - 1 ∧ p.openerOf (p.size - 1) = .ok first
      ∧ (p.slice (first + 1) (p.size - 1)).Sound line ∧ (p.take first).Sound line := by
  obtain ⟨init, c, hp⟩ : ∃ init c, p.tokens = init ++ [c] := by
    refine ⟨_, _, (List.dropLast_concat_getLast fun hnil => ?_).symm⟩
    rw [hasText, hnil] at hlast
    cases hlast
  have hc : c.text = square.closerText := by
    rw [hasText, size, hp, List.length_append, List.length_singleton, Nat.add_sub_cancel,
      List.getElem?_append_right (Nat.le_refl _), Nat.sub_self, beq_iff_eq] at hlast
    exact Option.some.inj hlast
  obtain ⟨before, o, inner, rfl, ho, hbefore, hinner⟩ := (hp ▸ h.nested).exists_opener hc
  have hp' : p.tokens = before ++ o :: (inner ++ c :: []) := by rw [hp]; simp
  have hsize : p.size - 1 = before.length + inner.length + 1 := by
    rw [size, hp]
    simp only [List.length_append, List.length_cons, List.length_nil]
    omega
  rw [hsize]
  refine ⟨before.length, by omega, openerOf_eq .square hp' ho hc hinner,
    ⟨h.liesIn.slice _ _, ?_, h.isScanned.slice _ _⟩,
    ⟨h.liesIn.slice _ _, ?_, h.isScanned.slice _ _⟩⟩
  · rwa [tokens_slice_of_bracketed hp']
  · exact (tokens_take_of_append hp').symm ▸ hbefore

/-- **Every cut of a sound phrase is sound.** -/
theorem cut (h : p.Sound line) (hq : Cut p q) : q.Sound line := by
  cases hq with
  | enclosed henclosed => exact h.enclosed henclosed
  | left hd => exact (h.lowest hd).1
  | right hd => exact (h.lowest hd).2
  | segment hs hq => exact h.segment hs hq
  | onward hplain => exact h.onward hplain
  | upTo hplain hk => exact h.upTo hplain hk
  | behind htext hk => exact h.behind htext hk
  | parameters hk hlast =>
    obtain ⟨last', hlast', hsound⟩ := h.parameters hk
    cases hlast.symm.trans hlast'
    exact hsound
  | index hlast hfirst =>
    obtain ⟨first', -, hfirst', hsound, -⟩ := h.index hlast
    cases hfirst.symm.trans hfirst'
    exact hsound
  | indexed hlast hfirst =>
    obtain ⟨first', -, hfirst', -, hsound⟩ := h.index hlast
    cases hfirst.symm.trans hfirst'
    exact hsound

/-- **Every phrase that is formed from a sound one is sound.** -/
theorem formed (h : p.Sound line) (hq : Formed p q) : q.Sound line := by
  induction hq with
  | refl => exact h
  | tail _ hcut ih => exact ih.cut hcut

end Sound

/-- A statement that is scanned without a flaw is sound. -/
theorem sound_scan {src : Source} (h : src.scan.flaw = none) :
    (whole src.scan.tokens).Sound src.scan.tokens :=
  ⟨.whole _, Source.nested_scan h, fun _ ht => isLexeme_of_mem_scan ht⟩

end Phrase

end ScriptReader

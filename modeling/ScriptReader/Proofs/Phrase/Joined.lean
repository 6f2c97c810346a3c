import Mathlib.Data.List.Forall2
import ScriptReader.Phrase.Segments
import ScriptReader.Proofs.Source.Lexeme

/-!
# Proofs/Phrase/Joined — segments joined by separators are the segments of the phrase

`Joined` puts a separator between any two segments.  If the segments are nested and show no
separator outside brackets, splitting finds them again: `tokens_segments`.
-/

namespace ScriptReader

/-! ## Cutting -/

namespace Phrase

variable {p : Phrase} {as bs : List Token}

theorem tokens_take (pos : Nat) (p : Phrase) : (p.take pos).tokens = p.tokens.take pos := by
  rw [take, tokens_slice, List.drop_zero]

theorem tokens_drop (pos : Nat) (p : Phrase) : (p.drop pos).tokens = p.tokens.drop pos := by
  rw [drop, tokens_slice, size, List.take_length]

theorem tokens_take_of_append (h : p.tokens = as ++ bs) : (p.take as.length).tokens = as := by
  rw [tokens_take, h, List.take_left]

theorem tokens_drop_of_append (h : p.tokens = as ++ bs) : (p.drop as.length).tokens = bs := by
  rw [tokens_drop, h, List.drop_left]

theorem tokens_drop_of_cons {t : Token} (h : p.tokens = as ++ t :: bs) :
    (p.drop (as.length + 1)).tokens = bs := by
  rw [tokens_drop, h, ← List.drop_drop, List.drop_left, List.drop_one, List.tail_cons]

theorem tokens_drop_one {t : Token} (h : p.tokens = t :: bs) : (p.drop 1).tokens = bs := by
  rw [tokens_drop, h, List.drop_one, List.tail_cons]

theorem tokens_drop_two {t u : Token} (h : p.tokens = t :: u :: bs) : (p.drop 2).tokens = bs := by
  rw [tokens_drop, h]
  rfl

theorem getElem?_of_append {t : Token} (h : p.tokens = as ++ t :: bs) :
    p.tokens[as.length]? = some t := by
  rw [h, List.getElem?_append_right (Nat.le_refl _), Nat.sub_self, List.getElem?_cons_zero]

theorem getElem?_of_bracketed {o c : Token} {ts : List Token}
    (h : p.tokens = as ++ o :: (ts ++ c :: bs)) :
    p.tokens[as.length + ts.length + 1]? = some c := by
  have hlen : as.length + ts.length + 1 = (as ++ o :: ts).length := by
    simp only [List.length_append, List.length_cons]
    omega
  have hsplit : p.tokens = (as ++ o :: ts) ++ c :: bs := by rw [h]; simp
  rw [hlen, getElem?_of_append hsplit]

/-- What stands between two tokens. -/
theorem tokens_slice_of_bracketed {o c : Token} {ts : List Token}
    (h : p.tokens = as ++ o :: (ts ++ c :: bs)) :
    (p.slice (as.length + 1) (as.length + ts.length + 1)).tokens = ts := by
  have hlen : as.length + ts.length + 1 = (as ++ o :: ts).length := by
    simp only [List.length_append, List.length_cons]
    omega
  have hsplit : p.tokens = (as ++ o :: ts) ++ c :: bs := by rw [h]; simp
  rw [tokens_slice, hlen, hsplit, List.take_left, ← List.drop_drop, List.drop_left, List.drop_one,
    List.tail_cons]

theorem tokens_trim_of_bracketed {o c : Token} {ts : List Token}
    (h : p.tokens = o :: (ts ++ [c])) : (p.trim 1).tokens = ts := by
  have hsize : p.size - 1 = ([] : List Token).length + ts.length + 1 := by
    rw [size, h]
    simp only [List.length_cons, List.length_append, List.length_nil]
    omega
  rw [trim, hsize]
  have hsplit : p.tokens = [] ++ o :: (ts ++ [c]) := h
  exact tokens_slice_of_bracketed hsplit

theorem isEmpty_eq_false (h : p.tokens ≠ []) : p.isEmpty = false :=
  List.isEmpty_eq_false_iff.mpr h

/-- Phrases with the tokens of what they write have them one by one. -/
theorem forall₂_of_map_tokens {α : Type} {f : α → List Token} {ps : List Phrase} {xs : List α}
    (h : ps.map tokens = xs.map f) : List.Forall₂ (fun p x => p.tokens = f x) ps xs := by
  rwa [← List.forall₂_eq_eq_eq, List.forall₂_map_left_iff, List.forall₂_map_right_iff] at h

end Phrase

/-! ## Splitting -/

variable {separator : String}

theorem splitOutside_of_eq_none {depth : Nat} {ts : List Token}
    (h : findOutside? separator depth ts = none) : splitOutside separator depth ts = (ts, []) := by
  induction ts generalizing depth with
  | nil => rfl
  | cons t ts ih =>
    rw [findOutside?] at h
    split at h
    · cases h
    · next hne =>
      rw [splitOutside, if_neg hne, ih (Option.map_eq_none_iff.mp h)]

/-- The first segment ends at the first separator outside all brackets. -/
theorem splitOutside_append_cons {depth : Nat} {as bs : List Token} {t : Token}
    (h : findOutside? separator depth (as ++ t :: bs) = some as.length) :
    splitOutside separator depth (as ++ t :: bs)
      = (as, (t, (splitOutside separator 0 bs).1) :: (splitOutside separator 0 bs).2) := by
  induction as generalizing depth with
  | nil =>
    rw [List.nil_append, findOutside?] at h
    split at h
    · next heq => rw [List.nil_append, splitOutside, if_pos heq]
    · obtain ⟨k, -, hk⟩ := Option.map_eq_some_iff.mp h
      cases hk
  | cons a as ih =>
    rw [List.cons_append, findOutside?] at h
    split at h
    · cases h
    · next hne =>
      obtain ⟨k, hk, hlen⟩ := Option.map_eq_some_iff.mp h
      rw [List.length_cons, Nat.add_right_cancel_iff] at hlen
      rw [List.cons_append, splitOutside, if_neg hne, ih (hk.trans (congrArg some hlen))]

/-! ## Joined segments -/

/-- **The segments with a separator between any two.** -/
inductive Joined (separator : String) : List (List Token) → List Token → Prop
  | nil : Joined separator [] []
  | single (ts : List Token) : Joined separator [ts] ts
  | cons (ts : List Token) {t : Token} {us : List Token} {segments : List (List Token)}
      {rest : List Token} (ht : t.Spells separator) (h : Joined separator (us :: segments) rest) :
      Joined separator (ts :: us :: segments) (ts ++ t :: rest)

/-- A segment that splitting keeps whole. -/
structure IsSegment (separator : String) (ts : List Token) : Prop where
  nested : Nested ts
  free : findOutside? separator 0 ts = none
  ne_nil : ts ≠ []

theorem IsSegment.hides {ts : List Token} (h : IsSegment separator ts) : Hides separator ts :=
  ⟨h.nested, h.free⟩

theorem Hides.isSegment {ts : List Token} (h : Hides separator ts) (hne : ts ≠ []) :
    IsSegment separator ts :=
  ⟨h.nested, h.free, hne⟩

theorem Joined.ne_nil {segments : List (List Token)} {ts : List Token}
    (h : Joined separator segments ts) (hne : ∀ s ∈ segments, IsSegment separator s)
    (hs : segments ≠ []) : ts ≠ [] := by
  cases h with
  | nil => exact absurd rfl hs
  | single => exact (hne ts List.mem_cons_self).ne_nil
  | cons => simp

/-- Segments and their separators are nested, if the separator is no bracket. -/
theorem Joined.nested {segments : List (List Token)} {ts : List Token}
    (h : Joined separator segments ts) (hseg : ∀ s ∈ segments, Nested s)
    (hplain : ∀ t : Token, t.Spells separator → t.IsPlain) : Nested ts := by
  induction h with
  | nil => exact .nil
  | single ts => exact hseg ts List.mem_cons_self
  | cons ts ht _ ih =>
    exact (hseg ts List.mem_cons_self).append
      (.cons (hplain _ ht) (ih fun s hs => hseg s (List.mem_cons_of_mem _ hs)))

theorem Joined.splitOutside {first : List Token} {segments : List (List Token)} {ts : List Token}
    (h : Joined separator (first :: segments) ts)
    (hseg : ∀ s ∈ first :: segments, IsSegment separator s) :
    (splitOutside separator 0 ts).1 = first
      ∧ (splitOutside separator 0 ts).2.map Prod.snd = segments := by
  generalize hall : first :: segments = all at h hseg
  induction h generalizing first segments with
  | nil => cases hall
  | single ts =>
    cases hall
    rw [splitOutside_of_eq_none (hseg ts List.mem_cons_self).free]
    exact ⟨rfl, rfl⟩
  | cons ts ht _ ih =>
    cases hall
    have hts := hseg ts List.mem_cons_self
    obtain ⟨hfirst, hothers⟩ := ih rfl fun s hs => hseg s (List.mem_cons_of_mem _ hs)
    rw [splitOutside_append_cons (hts.hides.findOutside?_append_cons ht.text_eq)]
    refine ⟨rfl, ?_⟩
    rw [List.map_cons, hfirst, hothers]

/-- What stands between the segments are separators. -/
theorem text_of_mem_splitOutside {separator : String} {depth : Nat} {ts : List Token} :
    ∀ s ∈ (splitOutside separator depth ts).2, s.1.text = separator := by
  fun_induction splitOutside separator depth ts with
  | case1 =>
    intro s hs
    cases hs
  | case2 _ t ts h first others hsplit ih =>
    rw [hsplit] at ih
    exact List.forall_mem_cons.mpr ⟨h.2, ih⟩
  | case3 _ t ts _ first others hsplit ih =>
    rw [hsplit] at ih
    exact ih

namespace Phrase

theorem tokens_ofSeparated (start : Nat) (before after : Option Nat) (first : List Token)
    (others : List (Token × List Token)) :
    (ofSeparated start before after first others).map tokens = first :: others.map Prod.snd := by
  induction others generalizing start before first with
  | nil => rfl
  | cons s others ih =>
    rw [ofSeparated, List.map_cons, ih, List.map_cons]

/-- The segments of a phrase are what is left of it without separators. -/
theorem exists_separated (separator : String) (p : Phrase) :
    p.tokens = [] ∧ p.segments separator = []
      ∨ ∃ (first : List Token) (others : List (Token × List Token)),
        p.tokens = first ++ others.flatMap (fun s => s.1 :: s.2)
          ∧ (p.segments separator).map tokens = first :: others.map Prod.snd
          ∧ ∀ s ∈ others, s.1.text = separator := by
  rw [segments]
  split
  · next hempty => exact .inl ⟨List.isEmpty_iff.mp hempty, rfl⟩
  · exact .inr ⟨_, _, (flatten_splitOutside separator 0 p.tokens).symm,
      tokens_ofSeparated _ _ _ _ _, text_of_mem_splitOutside⟩

/-- **Splitting finds the segments that were joined.** -/
theorem tokens_segments {p : Phrase} {ts : List Token} {segments : List (List Token)}
    (hp : p.tokens = ts) (h : Joined separator segments ts)
    (hseg : ∀ s ∈ segments, IsSegment separator s) :
    (p.segments separator).map tokens = segments := by
  subst hp
  cases segments with
  | nil =>
    have hempty : p.isEmpty = true := by
      generalize hts : p.tokens = ts at h
      cases h
      rw [isEmpty, hts, List.isEmpty_nil]
    rw [Phrase.segments, if_pos hempty, List.map_nil]
  | cons first segments =>
    have hne := h.ne_nil hseg (List.cons_ne_nil _ _)
    obtain ⟨hfirst, hothers⟩ := h.splitOutside hseg
    rw [Phrase.segments, if_neg (by rw [isEmpty_eq_false hne]; exact Bool.false_ne_true),
      tokens_ofSeparated, hfirst, hothers]

end Phrase

end ScriptReader

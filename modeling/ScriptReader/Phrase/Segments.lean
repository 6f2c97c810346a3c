import ScriptReader.Phrase.Brackets

/-!
# Phrase/Segments — a phrase taken apart at separators

Every separator outside all brackets ends one segment and begins another, so that two separators in
a row have an empty segment between them.  `flatten_splitOutside` says that segments and separators
together are the tokens that were split.
-/

namespace ScriptReader

/-- A first segment, and the others with the separators before them. -/
abbrev Separated := List Token × List (Token × List Token)

/-- Splits tokens at every separator outside all brackets. -/
def splitOutside (separator : String) (depth : Nat) : List Token → Separated
  | [] => ([], [])
  | t :: ts =>
    if depth = 0 ∧ t.text = separator then
      let (first, others) := splitOutside separator 0 ts
      ([], (t, first) :: others)
    else
      let (first, others) := splitOutside separator (depthAfter depth t.text) ts
      (t :: first, others)

/-- **Segments and separators are the tokens that were split.** -/
theorem flatten_splitOutside (separator : String) (depth : Nat) (ts : List Token) :
    (splitOutside separator depth ts).1 ++
      (splitOutside separator depth ts).2.flatMap (fun s => s.1 :: s.2) = ts := by
  fun_induction splitOutside separator depth ts with
  | case1 => rfl
  | case2 _ t ts _ first others h ih => simpa [h] using ih
  | case3 _ t ts _ first others h ih => simpa [h] using ih

namespace Phrase

/-- The segments as phrases, of which the first starts at `start`. -/
def ofSeparated (start : Nat) (before after : Option Nat) (first : List Token) :
    List (Token × List Token) → List Phrase
  | [] => [⟨first, start, before, after⟩]
  | (t, next) :: others =>
    ⟨first, start, before, some t.line⟩ ::
      ofSeparated (start + first.length + 1) (some t.line) after next others

/-- The segments between separators; an empty phrase has none. -/
def segments (separator : String) (p : Phrase) : List Phrase :=
  if p.isEmpty then []
  else
    let (first, others) := splitOutside separator 0 p.tokens
    ofSeparated p.start p.lineBefore p.lineAfter first others

theorem size_le_of_mem_ofSeparated {start : Nat} {before after : Option Nat} {first : List Token}
    {others : List (Token × List Token)} {q : Phrase}
    (h : q ∈ ofSeparated start before after first others) :
    q.size ≤ first.length + (others.flatMap fun s => s.1 :: s.2).length := by
  induction others generalizing start before first with
  | nil => obtain rfl := List.mem_singleton.mp h; exact Nat.le_refl _
  | cons s others ih =>
    simp only [ofSeparated, List.mem_cons, List.flatMap_cons, List.cons_append, List.length_cons,
      List.length_append] at h ⊢
    rcases h with rfl | h
    · simp only [size]; omega
    · have := ih h; omega

/-- No segment is longer than the phrase. -/
theorem size_le_of_mem_segments {separator : String} {p q : Phrase}
    (h : q ∈ p.segments separator) : q.size ≤ p.size := by
  unfold segments at h
  split at h
  · cases h
  · have hle := size_le_of_mem_ofSeparated h
    rw [← List.length_append, flatten_splitOutside] at hle
    exact hle

end Phrase

end ScriptReader

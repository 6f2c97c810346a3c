import ScriptReader.Proofs.Expr.Divided
import ScriptReader.Proofs.Expr.Rules

/-!
# Proofs/Expr/Lost — the tokens that no part of a division holds

Where a phrase is divided at an index or a slice, what stands behind the closing bracket belongs to
no part of the division, and is not read.  `Phrase.lost` collects these tokens over the whole
reading, from the parts that are read in turn (`Division.parts`).
-/

namespace ScriptReader

/-! ## What is lost -/

namespace Phrase

/-- The key and the value of a dictionary's entry. -/
def sides (p : Phrase) : List Phrase :=
  match p.findOutside? ":" with
  | none => []
  | some colon => [p.take colon, p.drop (colon + 1)]

/-- An argument without its name. -/
def argument (p : Phrase) : Phrase := if p.hasOutside "=" then p.drop 2 else p

end Phrase

namespace Division

/-- The phrases that are read in turn where a phrase is divided. -/
def parts (p : Phrase) (d : Division) : List Phrase :=
  if d.op = .array then (p.trim 1).segments ","
  else if d.op = .dictionary then ((p.trim 1).segments ",").flatMap Phrase.sides
  else if d.op = .call then d.left :: ((d.right.trim 1).segments ",").map Phrase.argument
  else if d.op = .slice then d.left :: d.right.segments ":"
  else [d.left, d.right]

/-- **The tokens behind the brackets** of an index or a slice. -/
def beyond (p : Phrase) (d : Division) : List Token :=
  if d.op = .index ∨ d.op = .slice then p.tokens.drop (d.left.size + d.right.size + 2) else []

theorem size_lt_of_mem_parts {p q : Phrase} {d : Division} (hd : p.lowest = .ok (some d))
    (h : q ∈ d.parts p) : q.size < p.size := by
  have hpos : 0 < p.size := Nat.zero_lt_of_lt (Phrase.size_left_lt hd)
  have hleft := Phrase.size_left_lt hd
  have htrim : (p.trim 1).size < p.size := Phrase.size_trim_lt (by decide) hpos
  unfold parts at h
  split at h
  · exact Nat.lt_of_le_of_lt (Phrase.size_le_of_mem_segments h) htrim
  next harray =>
  split at h
  · obtain ⟨r, hr, hq⟩ := List.mem_flatMap.mp h
    refine Nat.lt_of_le_of_lt (Nat.le_trans ?_ (Phrase.size_le_of_mem_segments hr)) htrim
    unfold Phrase.sides at hq
    split at hq
    · cases hq
    · simp only [List.mem_cons, List.not_mem_nil, or_false] at hq
      obtain rfl | rfl := hq
      · exact Phrase.size_slice_le _ _ _
      · exact Phrase.size_slice_le _ _ _
  next hdictionary =>
  split at h
  · rw [List.mem_cons] at h
    obtain rfl | h := h
    · exact hleft
    · obtain ⟨r, hr, rfl⟩ := List.mem_map.mp h
      refine Nat.lt_of_le_of_lt (Nat.le_trans ?_ (Phrase.size_le_of_mem_segments hr))
        (Phrase.size_trim_lt_of_le (by decide) (Phrase.size_right_le hd) hpos)
      unfold Phrase.argument
      split
      · exact Phrase.size_slice_le _ _ _
      · exact Nat.le_refl _
  next hcall =>
  have hright := Phrase.size_right_lt hd hcall harray hdictionary
  split at h
  · rw [List.mem_cons] at h
    obtain rfl | h := h
    · exact hleft
    · exact Nat.lt_of_le_of_lt (Phrase.size_le_of_mem_segments h) hright
  · simp only [List.mem_cons, List.not_mem_nil, or_false] at h
    obtain rfl | rfl := h
    · exact hleft
    · exact hright

end Division

namespace Phrase

/-- **The tokens that are not read** where the phrase is read. -/
def lost (p : Phrase) : List Token :=
  match hq : p.unwrap with
  | .error _ => []
  | .ok q =>
    match hd : q.lowest with
    | .ok (some d) =>
      d.beyond q ++ (d.parts q).attach.flatMap fun ⟨r, hr⟩ =>
        have : r.size < p.size :=
          Nat.lt_of_lt_of_le (Division.size_lt_of_mem_parts hd hr) (size_unwrap_le hq)
        lost r
    | _ => []
termination_by p.size

variable {p q : Phrase}

theorem lost_of_divided {d : Division} (hq : p.unwrap = .ok q) (hd : q.lowest = .ok (some d)) :
    p.lost = d.beyond q ++ (d.parts q).flatMap lost := by
  rw [lost]
  split
  · next h => rw [hq] at h; cases h
  · next r h =>
    cases hq.symm.trans h
    split
    · next d' h' =>
      cases hd.symm.trans h'
      rw [List.flatMap_subtype, List.unattach_attach]
      exact fun _ _ => rfl
    · next h' => exact absurd hd (h' d)

theorem lost_of_undivided (hq : p.unwrap = .ok q) (hd : q.lowest = .ok none) : p.lost = [] := by
  rw [lost]
  split
  · rfl
  · next r h =>
    cases hq.symm.trans h
    split
    · next d' h' => cases hd.symm.trans h'
    · rfl

/-- Nothing is lost where there is nothing. -/
theorem lost_of_nil (h : p.tokens = []) : p.lost = [] := by
  have hitems : p.items = .ok [] := by
    rw [items, h, groupsFrom]
    rfl
  have hnone : p.lowest = .ok none := by rw [lowest, hitems]; rfl
  have henclosed : p.isEnclosed .round = .ok false := by
    rw [isEnclosed, startsWith, hasText, h]
    rfl
  exact lost_of_undivided (Expr.unwrap_of_not_enclosed henclosed) hnone

/-- Nor where there is only a word. -/
theorem lost_of_word {t : Token} (h : p.tokens = [t]) (ht : t.IsIdentifier) : p.lost = [] :=
  lost_of_undivided (Expr.unwrap_of_not_enclosed (isEnclosed_of_token .round h ht.isPlain))
    (lowest_token h ht.isPlain ht.ranked?_eq_none)

end Phrase

end ScriptReader

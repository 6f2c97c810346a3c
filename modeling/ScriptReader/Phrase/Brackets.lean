import ScriptReader.Bracket
import ScriptReader.Phrase

/-!
# Phrase/Brackets — which brackets belong together, and what stands outside them

The partner of a bracket is found by counting brackets of its own kind (`partner?`), to the right
from an opening one and to the left from a closing one.  What stands outside all brackets is found
by counting brackets of every kind as one depth, which does not go below zero.
-/

namespace ScriptReader

/-! ## Depth -/

/-- The depth after a token, if there were `depth` open brackets before it. -/
def depthAfter (depth : Nat) (text : String) : Nat :=
  if (Bracket.ofOpenerText? text).isSome then depth + 1
  else if (Bracket.ofCloserText? text).isSome then depth - 1
  else depth

/-- The place of the first token with the given text outside all brackets. -/
def findOutside? (text : String) (depth : Nat) : List Token → Option Nat
  | [] => none
  | t :: ts =>
    if depth = 0 ∧ t.text = text then some 0
    else (findOutside? text (depthAfter depth t.text) ts).map (· + 1)

theorem findOutside?_lt {text : String} {depth k : Nat} {ts : List Token}
    (h : findOutside? text depth ts = some k) : k < ts.length := by
  fun_induction findOutside? text depth ts generalizing k with
  | case1 => cases h
  | case2 => cases h; simp
  | case3 _ _ _ _ ih =>
    obtain ⟨j, hj, rfl⟩ := Option.map_eq_some_iff.mp h
    exact Nat.succ_lt_succ (ih hj)

/-! ## Partners -/

/-- The place where a bracket's text has been met as often as its partner's, where it has been met
`level` times more often so far. -/
def partner? (own other : String) (level : Nat) : List Token → Option Nat
  | [] => none
  | t :: ts =>
    if t.text = own then (partner? own other (level + 1) ts).map (· + 1)
    else if t.text = other then
      if level ≤ 1 then some 0 else (partner? own other (level - 1) ts).map (· + 1)
    else (partner? own other level ts).map (· + 1)

theorem partner?_lt {own other : String} {level k : Nat} {ts : List Token}
    (h : partner? own other level ts = some k) : k < ts.length := by
  fun_induction partner? own other level ts generalizing k with
  | case1 => cases h
  | case2 _ _ _ _ ih | case4 _ _ _ _ _ _ ih | case5 _ _ _ _ _ ih =>
    obtain ⟨j, hj, rfl⟩ := Option.map_eq_some_iff.mp h
    have := ih hj
    simp only [List.length_cons]
    omega
  | case3 => cases h; simp

namespace Phrase

/-- The first position outside all brackets with the given text. -/
def findOutside? (text : String) (p : Phrase) : Option Nat :=
  ScriptReader.findOutside? text 0 p.tokens

/-- Does a token with the given text stand outside all brackets? -/
def hasOutside (text : String) (p : Phrase) : Bool := (p.findOutside? text).isSome

/-- The position of the bracket that closes the one at a position. -/
def closerOf (pos : Nat) (p : Phrase) : Except Error Nat :=
  match Bracket.ofOpenerText? (p.textAt pos) with
  | none => p.refuse pos (.notOpening (p.found pos))
  | some b =>
    match partner? b.openerText b.closerText 0 (p.tokens.drop pos) with
    | some k => .ok (pos + k)
    | none => p.refuse pos (.noClosing (p.found pos))

/-- The position of the bracket that opens the one at a position. -/
def openerOf (pos : Nat) (p : Phrase) : Except Error Nat :=
  match Bracket.ofCloserText? (p.textAt pos) with
  | none => p.refuse pos (.notClosing (p.found pos))
  | some b =>
    match partner? b.closerText b.openerText 0 (p.tokens.take (pos + 1)).reverse with
    | some k => .ok (pos - k)
    | none => p.refuse pos (.noOpening (p.found pos))

/-- A closing bracket stands right of its partner, inside the phrase. -/
theorem closerOf_bounds {pos last : Nat} {p : Phrase} (h : p.closerOf pos = .ok last) :
    pos < last ∧ last < p.size := by
  unfold closerOf at h
  split at h
  · cases h
  · next b hb =>
    split at h
    · next k hk =>
      cases h
      have hlt := partner?_lt hk
      rw [List.length_drop] at hlt
      refine ⟨?_, by simp only [size]; omega⟩
      have hopen := Bracket.eq_openerText_of_ofOpenerText? hb
      have hpos : pos < p.tokens.length := by omega
      rw [List.drop_eq_getElem_cons hpos] at hk
      have htext : p.tokens[pos].text = b.openerText := by
        rw [← hopen, textAt, List.getElem?_eq_getElem hpos]; rfl
      rw [partner?, if_pos htext] at hk
      obtain ⟨j, -, rfl⟩ := Option.map_eq_some_iff.mp hk
      omega
    · cases h

/-- Is the phrase one group between the given brackets? -/
def isEnclosed (b : Bracket) (p : Phrase) : Except Error Bool :=
  if p.startsWith b.openerText then (· == p.size - 1) <$> p.closerOf 0 else .ok false

/-- An enclosed phrase is not empty. -/
theorem size_pos_of_isEnclosed {b : Bracket} (p : Phrase) (h : p.isEnclosed b = .ok true) :
    0 < p.size := by
  unfold isEnclosed at h
  split at h
  · cases hc : p.closerOf 0 with
    | error e => rw [hc] at h; cases h
    | ok last => exact Nat.zero_lt_of_lt (closerOf_bounds hc).2
  · cases h

end Phrase

end ScriptReader

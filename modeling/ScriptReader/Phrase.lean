import ScriptReader.Diagnostic

/-!
# Phrase — a stretch of a statement's tokens

A phrase is what an expression is read from: consecutive tokens of a statement, with the place
where they start and the lines of the tokens around them, so that a message about an empty phrase
can still point somewhere.  Positions within a phrase count from its own start.  Cutting a phrase
(`Phrase.slice`) never fails: positions past the end mean the end.
-/

namespace ScriptReader

/-- Consecutive tokens of a statement. -/
structure Phrase where
  tokens : List Token
  /-- The place of the first token in the statement. -/
  start : Nat
  /-- The line of the token before the first one. -/
  lineBefore : Option Nat
  /-- The line of the token after the last one. -/
  lineAfter : Option Nat
  deriving DecidableEq, Repr

namespace Phrase

/-- All tokens of a statement. -/
def whole (tokens : List Token) : Phrase := ⟨tokens, 0, none, none⟩

/-- The number of tokens. -/
def size (p : Phrase) : Nat := p.tokens.length

/-- The place after the last token in the statement. -/
def stop (p : Phrase) : Nat := p.start + p.size

def isEmpty (p : Phrase) : Bool := p.tokens.isEmpty

/-! ## Tokens -/

/-- The text of the token at a position; past the end there is none. -/
def textAt (pos : Nat) (p : Phrase) : String := (p.tokens[pos]?.map Token.text).getD ""

/-- Is there a token at the position, and is this its text? -/
def hasText (pos : Nat) (text : String) (p : Phrase) : Bool :=
  (p.tokens[pos]?.map Token.text) == some text

def startsWith (text : String) (p : Phrase) : Bool := p.hasText 0 text

/-- Is the phrase this one token? -/
def isOnly (text : String) (p : Phrase) : Bool := p.tokens.map Token.text == [text]

/-- The texts of the tokens, a blank between any two. -/
def spelling (p : Phrase) : String := " ".intercalate (p.tokens.map Token.text)

/-! ## Lines -/

/-- The line of the token at a position; past the end, of the nearest token there is. -/
def lineNear (pos : Nat) (p : Phrase) : Nat :=
  match p.tokens[pos]?, p.tokens.getLast? with
  | some t, _ => t.line
  | none, some t => t.line
  | none, none => (p.lineAfter <|> p.lineBefore).getD 0

/-- The line on which the phrase begins. -/
def firstLine (p : Phrase) : Nat := p.lineNear 0

/-- The token at a position, or the end of the statement, as messages point at it. -/
def found (pos : Nat) (p : Phrase) : Found :=
  match p.tokens[pos]? with
  | some t => .token t
  | none => .endOfStatement (p.lineNear pos)

/-- Refuses the phrase on the line of a position. -/
def refuse {α : Type} (pos : Nat) (problem : Problem) (p : Phrase) : Except Error α :=
  .error (.script problem (p.lineNear pos))

/-! ## Cutting -/

/-- The line of the token before a position. -/
def lineLeftOf (pos : Nat) (p : Phrase) : Option Nat :=
  if pos = 0 then p.lineBefore else p.tokens[pos - 1]?.map Token.line

/-- The line of the token at a position, which may be the one after the phrase. -/
def lineRightOf (pos : Nat) (p : Phrase) : Option Nat :=
  (p.tokens[pos]?.map Token.line) <|> p.lineAfter

/-- The tokens from one position up to, but not including, another. -/
def slice (first last : Nat) (p : Phrase) : Phrase :=
  let last := min last p.size
  let first := min first last
  ⟨(p.tokens.drop first).take (last - first), p.start + first, p.lineLeftOf first,
    p.lineRightOf last⟩

def drop (pos : Nat) (p : Phrase) : Phrase := p.slice pos p.size

def take (pos : Nat) (p : Phrase) : Phrase := p.slice 0 pos

/-- The phrase without `n` tokens at either end. -/
def trim (n : Nat) (p : Phrase) : Phrase := p.slice n (p.size - n)

/-! ## Sizes -/

theorem size_pos_of_not_isEmpty {p : Phrase} (h : p.isEmpty = false) : 0 < p.size :=
  List.length_pos_iff.mpr fun hnil => by simp [isEmpty, hnil] at h

theorem tokens_slice (first last : Nat) (p : Phrase) :
    (p.slice first last).tokens = (p.tokens.take last).drop first := by
  simp only [slice, size]
  refine List.ext_getElem? fun i => ?_
  simp only [List.getElem?_drop, List.getElem?_take]
  grind

theorem size_slice (first last : Nat) (p : Phrase) :
    (p.slice first last).size = min last p.size - min first (min last p.size) := by
  simp only [slice, size, List.length_drop, List.length_take]
  omega

/-! ## Slices of slices -/

section Slices

variable {first last : Nat} {p : Phrase}

theorem slice_eq (hfirst : first ≤ last) (hlast : last ≤ p.size) :
    p.slice first last = ⟨(p.tokens.drop first).take (last - first), p.start + first,
      p.lineLeftOf first, p.lineRightOf last⟩ := by
  rw [slice, Nat.min_eq_left hlast, Nat.min_eq_left hfirst]

theorem start_slice (hfirst : first ≤ last) (hlast : last ≤ p.size) :
    (p.slice first last).start = p.start + first := by
  rw [slice_eq hfirst hlast]

theorem stop_slice (hfirst : first ≤ last) (hlast : last ≤ p.size) :
    (p.slice first last).stop = p.start + last := by
  rw [stop, start_slice hfirst hlast, size_slice, Nat.min_eq_left hlast, Nat.min_eq_left hfirst]
  omega

theorem getElem?_slice (hfirst : first ≤ last) (hlast : last ≤ p.size) {i : Nat}
    (hi : i < last - first) : (p.slice first last).tokens[i]? = p.tokens[first + i]? := by
  rw [slice_eq hfirst hlast, List.getElem?_take, if_pos hi, List.getElem?_drop]

/-- **A slice of a slice is a slice.** -/
theorem slice_slice {i j : Nat} (hfirst : first ≤ last) (hlast : last ≤ p.size) (hi : i ≤ j)
    (hj : j ≤ last - first) : (p.slice first last).slice i j = p.slice (first + i) (first + j) := by
  have hsize : (p.slice first last).size = last - first := by
    rw [size_slice, Nat.min_eq_left hlast, Nat.min_eq_left hfirst]
  have hbefore : (p.slice first last).lineLeftOf i = p.lineLeftOf (first + i) := by
    rw [lineLeftOf]
    split
    · next hzero => rw [hzero, slice_eq hfirst hlast, Nat.add_zero]
    · next hpos =>
      rw [lineLeftOf, if_neg (by omega), getElem?_slice hfirst hlast (by omega),
        Nat.add_sub_assoc (by omega)]
  have hafter : (p.slice first last).lineRightOf j = p.lineRightOf (first + j) := by
    rw [lineRightOf]
    rcases Nat.lt_or_eq_of_le hj with hlt | rfl
    · have hsome : first + j < p.tokens.length :=
        Nat.lt_of_lt_of_le (by omega) hlast
      rw [getElem?_slice hfirst hlast hlt, lineRightOf, List.getElem?_eq_getElem hsome]
      rfl
    · have hnone : (p.slice first last).tokens[last - first]? = none :=
        List.getElem?_eq_none (Nat.le_of_eq hsize)
      rw [hnone, slice_eq hfirst hlast, Nat.add_sub_cancel' hfirst]
      rfl
  have htokens : ((p.slice first last).tokens.drop i).take (j - i)
      = (p.tokens.drop (first + i)).take (first + j - (first + i)) := by
    have hmin : min (j - i) (last - first - i) = j - i := Nat.min_eq_left (by omega)
    rw [slice_eq hfirst hlast, List.drop_take, List.take_take, List.drop_drop, hmin,
      Nat.add_sub_add_left]
  rw [slice_eq hi (Nat.le_trans hj (Nat.le_of_eq hsize.symm)), hbefore, hafter, htokens,
    start_slice hfirst hlast, slice_eq (by omega) (by omega), Nat.add_assoc]

/-- All of a phrase is the phrase. -/
theorem slice_zero_size (p : Phrase) : p.slice 0 p.size = p := by
  have hnone : p.tokens[p.size]? = none := List.getElem?_eq_none (Nat.le_refl _)
  rw [slice_eq (Nat.zero_le _) (Nat.le_refl _), lineRightOf, hnone, Nat.sub_zero, List.drop_zero,
    size, List.take_length]
  rfl

theorem stop_slice_le (first last : Nat) (p : Phrase) :
    (p.slice first last).stop ≤ p.start + p.size := by
  have hstart : (p.slice first last).start = p.start + min first (min last p.size) := rfl
  rw [stop, hstart, size_slice]
  omega

/-- Among all tokens, a slice is told by where it starts and stops. -/
theorem slice_whole_start_stop {ts : List Token} (hp : p = (whole ts).slice first last) :
    (whole ts).slice p.start p.stop = p := by
  have hlast := Nat.min_le_right last (whole ts).size
  have hfirst := Nat.min_le_right first (min last (whole ts).size)
  have hmin : p = (whole ts).slice (min first (min last (whole ts).size))
      (min last (whole ts).size) := by
    rw [hp, slice, slice_eq hfirst hlast]
  have hstart : p.start = min first (min last (whole ts).size) := by
    rw [hmin, start_slice hfirst hlast, whole, Nat.zero_add]
  have hstop : p.stop = min last (whole ts).size := by
    rw [hmin, stop_slice hfirst hlast, whole, Nat.zero_add]
  rw [hstart, hstop, ← hmin]

/-- So is a slice of a slice. -/
theorem slice_whole_slice {ts : List Token} {i j : Nat} (hp : p = (whole ts).slice first last)
    (hi : i ≤ j) (hj : j ≤ p.size) :
    (whole ts).slice (p.slice i j).start (p.slice i j).stop = p.slice i j := by
  have hle : p.stop ≤ (whole ts).size := by
    have := stop_slice_le first last (whole ts)
    rwa [← hp, whole, Nat.zero_add] at this
  have hfirst : p.start ≤ p.stop := Nat.le_add_right _ _
  have hlast : j ≤ p.stop - p.start := by rwa [stop, Nat.add_sub_cancel_left]
  have hslice : (whole ts).slice (p.start + i) (p.start + j) = p.slice i j := by
    rw [← slice_slice hfirst hle hi hlast, slice_whole_start_stop hp]
  exact slice_whole_start_stop hslice.symm

end Slices

/-! ## Fewer tokens -/

theorem size_slice_le (first last : Nat) (p : Phrase) :
    (p.slice first last).size ≤ p.size := by
  rw [size_slice]; omega

theorem size_take_lt {pos : Nat} {p : Phrase} (h : pos < p.size) :
    (p.take pos).size < p.size := by
  rw [take, size_slice]; omega

theorem size_drop_lt {pos : Nat} {p : Phrase} (h₀ : 0 < pos) (h : 0 < p.size) :
    (p.drop pos).size < p.size := by
  rw [drop, size_slice]; omega

theorem size_trim_le (n : Nat) (p : Phrase) : (p.trim n).size ≤ p.size :=
  size_slice_le _ _ _

theorem size_trim_lt {n : Nat} {p : Phrase} (h₀ : 0 < n) (h : 0 < p.size) :
    (p.trim n).size < p.size := by
  rw [trim, size_slice]; omega

theorem size_trim_lt_of_le {n m : Nat} {p : Phrase} (h₀ : 0 < n) (h : p.size ≤ m) (hm : 0 < m) :
    (p.trim n).size < m := by
  rw [trim, size_slice]; omega

end Phrase

end ScriptReader

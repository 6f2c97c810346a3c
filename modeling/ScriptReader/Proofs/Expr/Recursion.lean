import ScriptReader.Proofs.Expr.Lost

/-!
# Proofs/Expr/Recursion — what reading a phrase asks for

The phrases that are read where a phrase is read can be listed beforehand (`Phrase.asked`).  Each of
them has fewer tokens, whatever tokens the phrase has, and reading depends on nothing else
(`Expr.readStep_congr`); there is one lemma for each rule.  So a reading that may be nested in
others only so often as there are tokens is the whole reading (`Expr.readNested_eq`).
-/

namespace ScriptReader

/-- **The phrases that are read where the phrase is read.** -/
def Phrase.asked (p : Phrase) : List Phrase :=
  match p.unwrap with
  | .error _ => []
  | .ok q =>
    match q.lowest with
    | .ok (some d) => d.parts q
    | _ => []

theorem Phrase.asked_of_divided {p q : Phrase} {d : Division} (hq : p.unwrap = .ok q)
    (hd : q.lowest = .ok (some d)) : p.asked = d.parts q := by
  rw [asked, hq]
  simp only [hd]

/-- **They are shorter than the phrase**, whatever its tokens are. -/
theorem Phrase.size_lt_of_mem_asked {p r : Phrase} (h : r ∈ p.asked) : r.size < p.size := by
  unfold asked at h
  split at h
  · cases h
  · next q hq =>
    split at h
    · next d hd => exact Nat.lt_of_lt_of_le (Division.size_lt_of_mem_parts hd h) (size_unwrap_le hq)
    · cases h

namespace Expr

variable {n : Nat} {sub sub' : Sub n}

/-- The readings are the same on some phrases. -/
def SubSame (ps : List Phrase) {n : Nat} (sub sub' : Sub n) : Prop :=
  ∀ p ∈ ps, ∀ (hp : p.size < n) (lookup : Lookup), sub p hp lookup = sub' p hp lookup

theorem SubSame.cons {p : Phrase} {ps : List Phrase} (h : SubSame (p :: ps) sub sub') :
    (∀ (hp : p.size < n) (lookup : Lookup), sub p hp lookup = sub' p hp lookup)
      ∧ SubSame ps sub sub' := List.forall_mem_cons.mp h

theorem SubSame.append {ps qs : List Phrase} (h : SubSame (ps ++ qs) sub sub') :
    SubSame ps sub sub' ∧ SubSame qs sub sub' := List.forall_mem_append.mp h

/-! ## Rules -/

theorem readEach_congr {ps : List Phrase} {hps : ∀ p ∈ ps, p.size < n} (h : SubSame ps sub sub') :
    readEach sub ps hps = readEach sub' ps hps := by
  induction ps with
  | nil => rfl
  | cons p ps ih => rw [readEach, readEach, h.cons.1, ih h.cons.2]

theorem readSegments_congr {separator : String} {p : Phrase} {hp : p.size < n}
    (h : SubSame (p.segments separator) sub sub') :
    readSegments sub separator p hp = readSegments sub' separator p hp := readEach_congr h

theorem readArray_congr {p : Phrase} {hp : (p.trim 1).size < n}
    (h : SubSame ((p.trim 1).segments ",") sub sub') :
    readArray sub p hp = readArray sub' p hp := by
  rw [readArray, readArray, readSegments_congr h]

theorem readEntries_congr {ps : List Phrase} {hps : ∀ p ∈ ps, p.size < n}
    (h : SubSame (ps.flatMap Phrase.sides) sub sub') :
    readEntries sub ps hps = readEntries sub' ps hps := by
  induction ps with
  | nil => rfl
  | cons p ps ih =>
    rw [List.flatMap_cons] at h
    obtain ⟨hsides, hps⟩ := h.append
    rw [readEntries, readEntries, ih hps]
    cases hcolon : p.findOutside? ":" with
    | none => rfl
    | some colon =>
      simp only [Phrase.sides, hcolon] at hsides
      obtain ⟨hkey, hvalue⟩ := hsides.cons
      simp only [hkey, hvalue.cons.1]

theorem readDictionary_congr {p : Phrase} {hp : (p.trim 1).size < n}
    (h : SubSame (((p.trim 1).segments ",").flatMap Phrase.sides) sub sub') :
    readDictionary sub p hp = readDictionary sub' p hp := by
  rw [readDictionary, readDictionary, readEntries_congr h]

theorem readArguments_congr {ps : List Phrase} {hps : ∀ p ∈ ps, p.size < n}
    (h : SubSame (ps.map Phrase.argument) sub sub') :
    readArguments sub ps hps = readArguments sub' ps hps := by
  induction ps with
  | nil => rfl
  | cons p ps ih =>
    obtain ⟨hargument, hps⟩ := h.cons
    rw [readArguments, readArguments, ih hps]
    unfold Phrase.argument at hargument
    split
    · next hnamed =>
      rw [if_pos hnamed] at hargument
      simp only [hargument]
    · next hnamed =>
      rw [if_neg hnamed] at hargument
      rw [hargument]

theorem readCall_congr {callee arguments : Phrase} {hc : callee.size < n}
    {ha : (arguments.trim 1).size < n}
    (h : SubSame (callee :: ((arguments.trim 1).segments ",").map Phrase.argument) sub sub') :
    readCall sub callee arguments hc ha = readCall sub' callee arguments hc ha := by
  obtain ⟨hcallee, harguments⟩ := h.cons
  rw [readCall, readCall, readArguments_congr harguments, hcallee]

theorem readOperator_congr {op : Operator} {left right : Phrase} {hl : left.size < n}
    {hr : right.size < n} {lookup : Lookup}
    (h : SubSame (left :: if op = .slice then right.segments ":" else [right]) sub sub') :
    readOperator sub op left right hl hr lookup = readOperator sub' op left right hl hr lookup := by
  obtain ⟨hleft, hright⟩ := h.cons
  rw [readOperator, readOperator, hleft]
  by_cases hslice : op = .slice
  · -- A slice has no sign, so its right side is read as segments or not at all.
    rw [if_pos hslice] at hright
    subst hslice
    simp only [readSegments_congr hright, isSign, if_true]
    rfl
  · rw [if_neg hslice] at hright
    simp only [hright.cons.1, if_neg hslice]

/-! ## Phrases -/

theorem readUnwrapped_congr {p : Phrase} {sub sub' : Sub p.size} {lookup : Lookup}
    (h : ∀ d, p.lowest = .ok (some d) → SubSame (d.parts p) sub sub') :
    readUnwrapped p sub lookup = readUnwrapped p sub' lookup := by
  unfold readUnwrapped
  split
  · rfl
  · rfl
  · next d hd =>
    have h := h d hd
    unfold Division.parts at h
    dsimp only
    split
    · next harray =>
      rw [if_pos harray] at h
      exact readArray_congr h
    next harray =>
    rw [if_neg harray] at h
    split
    · next hdictionary =>
      rw [if_pos hdictionary] at h
      exact readDictionary_congr h
    next hdictionary =>
    rw [if_neg hdictionary] at h
    split
    · next hcall =>
      rw [if_pos hcall] at h
      exact readCall_congr h
    · next hcall =>
      rw [if_neg hcall] at h
      refine readOperator_congr ?_
      split at h
      · next hslice => rwa [if_pos hslice]
      · next hslice => rwa [if_neg hslice]

/-- **Reading depends on nothing but the readings it asks for.** -/
theorem readStep_congr {p : Phrase} {sub sub' : Sub p.size} (h : SubSame p.asked sub sub')
    (lookup : Lookup) : readStep p sub lookup = readStep p sub' lookup := by
  unfold readStep
  split
  · rfl
  split
  · rfl
  · next q hq =>
    refine readUnwrapped_congr fun d hd => ?_
    rw [Phrase.asked_of_divided hq hd] at h
    exact fun r hr hlt lookup => h r hr _ lookup

/-! ## Depth -/

/-- Reads a phrase, but gives up where more readings are nested in one another than allowed. -/
def readNested : Nat → Phrase → Lookup → Except Error Expr
  | 0, p, _ => .error (.outOfRange p.start 0)
  | n + 1, p, lookup => readStep p (fun q _ lookup => readNested n q lookup) lookup

/-- **There are no more readings in one another than there are tokens**, and one for no token. -/
theorem readNested_eq {n : Nat} {p : Phrase} (h : p.size < n) (lookup : Lookup) :
    readNested n p lookup = read p lookup := by
  induction n generalizing p lookup with
  | zero => exact absurd h (Nat.not_lt_zero _)
  | succ n ih =>
    rw [readNested, read_eq]
    refine readStep_congr (fun q _ hq lookup => ih (Nat.lt_of_lt_of_le hq ?_) lookup) lookup
    exact Nat.le_of_lt_succ h

end Expr

end ScriptReader

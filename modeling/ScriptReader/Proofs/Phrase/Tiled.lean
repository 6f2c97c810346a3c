import Mathlib.Data.List.Chain
import ScriptReader.Proofs.Phrase.Joined
import ScriptReader.Proofs.Phrase.Outside

/-!
# Proofs/Phrase/Tiled — segments tile a phrase, with one separator between any two

Segments can be taken off a phrase one by one: `Phrase.nextSegment` looks for the next separator
with the depth at zero again, `Phrase.SplitsInto` takes segments until there are no more, and
`Phrase.splitsInto_segments` says that these are the segments of the phrase.  What holds of one step
then holds of all segments: they tile the phrase (`Phrase.Tiling`), no separator stands outside the
brackets of one, and if it is no bracket, there is one more of them than places where one pass over
the whole phrase meets it at depth zero (`Phrase.SplitsInto.length_eq`).
-/

namespace ScriptReader

open ScriptReader.Bracket

variable {separator text : String} {k n : Nat} {ts : List Token}

theorem meetsAt_take {depth : Nat} (h : n < k) :
    MeetsAt text depth (ts.take k) n ↔ MeetsAt text depth ts n := by
  rw [MeetsAt, MeetsAt, List.take_take, Nat.min_eq_left h.le, List.getElem?_take_of_lt h]

/-- Before the first place where it stands, the text is not found. -/
theorem findOutside?_take (h : findOutside? text 0 ts = some k) :
    findOutside? text 0 (ts.take k) = none := by
  cases hj : findOutside? text 0 (ts.take k) with
  | none => rfl
  | some j =>
    have hmeets : MeetsAt text 0 (ts.take k) j := (isLeast_of_findOutside? hj).1
    have hlt : j < k := Nat.lt_of_lt_of_le hmeets.lt_length (List.length_take_le _ _)
    have hle := (isLeast_of_findOutside? h).2 ((meetsAt_take hlt).mp hmeets)
    exact absurd hle (Nat.not_le_of_gt hlt)

/-- The first segment has the tokens before the first separator outside all brackets. -/
theorem splitOutside_of_eq_some {t : Token} (hk : findOutside? separator 0 ts = some k)
    (ht : ts[k]? = some t) :
    splitOutside separator 0 ts
      = (ts.take k, (t, (splitOutside separator 0 (ts.drop (k + 1))).1)
          :: (splitOutside separator 0 (ts.drop (k + 1))).2) := by
  obtain ⟨hlt, rfl⟩ := List.getElem?_eq_some_iff.mp ht
  have hsplit : ts.take k ++ ts[k] :: ts.drop (k + 1) = ts := by
    rw [← List.drop_eq_getElem_cons hlt, List.take_append_drop]
  have hplace : findOutside? separator 0 (ts.take k ++ ts[k] :: ts.drop (k + 1))
      = some (ts.take k).length := by
    rw [hsplit, List.length_take_of_le hlt.le, hk]
  have hfirst := splitOutside_append_cons hplace
  rwa [hsplit] at hfirst

namespace Phrase

variable {p q : Phrase} {start : Nat} {next : Option Nat} {qs : List Phrase}

/-! ## One segment after another -/

/-- The segment from a place on, and where the next one begins if there is one. -/
def nextSegment (separator : String) (start : Nat) (p : Phrase) : Phrase × Option Nat :=
  match ScriptReader.findOutside? separator 0 (p.tokens.drop start) with
  | some k => (p.slice start (start + k), some (start + k + 1))
  | none => (p.drop start, none)

theorem nextSegment_of_eq_none
    (hk : ScriptReader.findOutside? separator 0 (p.tokens.drop start) = none) :
    p.nextSegment separator start = (p.drop start, none) := by
  rw [nextSegment, hk]

theorem nextSegment_of_eq_some
    (hk : ScriptReader.findOutside? separator 0 (p.tokens.drop start) = some k) :
    p.nextSegment separator start = (p.slice start (start + k), some (start + k + 1)) := by
  rw [nextSegment, hk]

/-- The first segment begins with the phrase, unless this is empty. -/
def firstSegment (p : Phrase) : Option Nat := if p.isEmpty then none else some 0

/-- **Taken off one by one from a place on, these are the segments**, and then there are no more. -/
inductive SplitsInto (separator : String) (p : Phrase) : Option Nat → List Phrase → Prop
  | done : SplitsInto separator p none []
  | next {start : Nat} {q : Phrase} {next : Option Nat} {qs : List Phrase}
      (hq : p.nextSegment separator start = (q, next)) (h : SplitsInto separator p next qs) :
      SplitsInto separator p (some start) (q :: qs)

theorem drop_eq (hstart : start ≤ p.size) :
    p.drop start = ⟨p.tokens.drop start, p.start + start, p.lineLeftOf start, p.lineAfter⟩ := by
  have hend : p.tokens[p.size]? = none := List.getElem?_eq_none (Nat.le_refl _)
  rw [drop, slice_eq hstart (Nat.le_refl _), List.take_of_length_le (by simp [size]), lineRightOf,
    hend]
  rfl

/-- Before a token, a stretch ends at its line. -/
theorem slice_before {t : Token} (ht : p.tokens[start + k]? = some t) :
    p.slice start (start + k)
      = ⟨(p.tokens.drop start).take k, p.start + start, p.lineLeftOf start, some t.line⟩ := by
  have hlt := (List.getElem?_eq_some_iff.mp ht).1
  rw [slice_eq (Nat.le_add_right _ _) hlt.le, Nat.add_sub_cancel_left, lineRightOf, ht]
  rfl

theorem lineLeftOf_succ {t : Token} (ht : p.tokens[n]? = some t) :
    p.lineLeftOf (n + 1) = some t.line := by
  rw [lineLeftOf, if_neg (Nat.succ_ne_zero _), Nat.add_sub_cancel, ht, Option.map_some]

/-- A separator is found at a place of the phrase. -/
theorem hasText_of_findOutside?
    (hk : ScriptReader.findOutside? separator 0 (p.tokens.drop start) = some k) :
    start + k < p.size ∧ p.hasText (start + k) separator = true := by
  obtain ⟨-, hget⟩ := (isLeast_of_findOutside? hk).1
  rw [List.getElem?_drop] at hget
  obtain ⟨t, ht, -⟩ := Option.map_eq_some_iff.mp hget
  exact ⟨(List.getElem?_eq_some_iff.mp ht).1, hasText_iff.mpr hget⟩

/-- What is left of a phrase is split into segments one by one. -/
theorem splitsInto_ofSeparated (separator : String) (hstart : start ≤ p.size) :
    p.SplitsInto separator (some start)
      (ofSeparated (p.start + start) (p.lineLeftOf start) p.lineAfter
        (splitOutside separator 0 (p.tokens.drop start)).1
        (splitOutside separator 0 (p.tokens.drop start)).2) := by
  induction hn : p.size - start using Nat.strongRecOn generalizing start with
  | ind n ih =>
    subst hn
    cases hk : ScriptReader.findOutside? separator 0 (p.tokens.drop start) with
    | none =>
      rw [splitOutside_of_eq_none hk, ofSeparated, ← drop_eq hstart]
      exact .next (nextSegment_of_eq_none hk) .done
    | some k =>
      obtain ⟨hlt, htext⟩ := hasText_of_findOutside? hk
      obtain ⟨t, ht, -⟩ := Option.map_eq_some_iff.mp (hasText_iff.mp htext)
      have hget : (p.tokens.drop start)[k]? = some t := List.getElem?_drop.trans ht
      have hlength : ((p.tokens.drop start).take k).length = k :=
        List.length_take_of_le (List.getElem?_eq_some_iff.mp hget).1.le
      have hsize : start + k + 1 ≤ p.size := hlt
      have hrest := ih (p.size - (start + k + 1)) (by omega) hsize rfl
      rw [lineLeftOf_succ ht, ← Nat.add_assoc, ← Nat.add_assoc] at hrest
      rw [splitOutside_of_eq_some hk hget, ofSeparated, hlength, List.drop_drop, ← slice_before ht]
      exact .next (nextSegment_of_eq_some hk) hrest

/-- **The segments of a phrase are those that are taken off one by one.** -/
theorem splitsInto_segments (separator : String) (p : Phrase) :
    p.SplitsInto separator p.firstSegment (p.segments separator) := by
  rw [firstSegment, segments]
  split
  · exact .done
  · exact splitsInto_ofSeparated separator (Nat.zero_le _)

/-! ## What every step keeps to -/

/-- **What all segments keep to** is what holds of the last one, and of one more before a separator
if it holds of those behind it. -/
@[elab_as_elim]
theorem SplitsInto.induction_on {motive : Nat → List Phrase → Prop}
    (h : p.SplitsInto separator (some start) qs) (hstart : start ≤ p.size)
    (last : ∀ start ≤ p.size, ScriptReader.findOutside? separator 0 (p.tokens.drop start) = none →
      motive start [p.drop start])
    (before : ∀ start k qs, ScriptReader.findOutside? separator 0 (p.tokens.drop start) = some k →
      motive (start + k + 1) qs → motive start (p.slice start (start + k) :: qs)) :
    motive start qs := by
  generalize hplace : some start = place at h
  induction h generalizing start with
  | done => cases hplace
  | @next _ q next qs hq h ih =>
    obtain rfl := Option.some.inj hplace
    cases hk : ScriptReader.findOutside? separator 0 (p.tokens.drop start) with
    | none =>
      obtain ⟨rfl, rfl⟩ := Prod.mk.inj ((nextSegment_of_eq_none hk).symm.trans hq)
      cases h
      exact last start hstart hk
    | some k =>
      obtain ⟨rfl, rfl⟩ := Prod.mk.inj ((nextSegment_of_eq_some hk).symm.trans hq)
      exact before start k qs hk (ih (hasText_of_findOutside? hk).1 rfl)

section Slices

variable {first last : Nat}

/-- A slice is told by where it starts and stops. -/
theorem slice_start_stop (hfirst : first ≤ last) (hlast : last ≤ p.size) :
    p.slice first last = p.slice ((p.slice first last).start - p.start)
      ((p.slice first last).stop - p.start) := by
  rw [start_slice hfirst hlast, stop_slice hfirst hlast, Nat.add_sub_cancel_left,
    Nat.add_sub_cancel_left]

end Slices

/-- **Segments tile a phrase from a place on**, with one separator between any two. -/
structure Tiling (separator : String) (start : Nat) (p : Phrase) (qs : List Phrase) : Prop where
  /-- Every segment is a stretch of the phrase. -/
  stretch : ∀ q ∈ qs, q = p.slice (q.start - p.start) (q.stop - p.start)
  first : qs.head?.map Phrase.start = some (p.start + start)
  last : qs.getLast?.map Phrase.stop = some p.stop
  /-- Where a segment stops there is the separator, and behind it the next one starts. -/
  next : qs.IsChain fun q q' =>
    p.hasText (q.stop - p.start) separator = true ∧ q'.start = q.stop + 1

/-- All that is left is a tiling. -/
theorem Tiling.last_segment (separator : String) (hstart : start ≤ p.size) :
    p.Tiling separator start [p.drop start] where
  stretch := List.forall_mem_singleton.mpr (slice_start_stop hstart (Nat.le_refl _))
  first := congrArg some (start_slice hstart (Nat.le_refl _))
  last := congrArg some (stop_slice hstart (Nat.le_refl _))
  next := List.isChain_singleton _

/-- A tiling from behind a separator goes on to the left of it. -/
theorem Tiling.cons (h : p.Tiling separator (start + k + 1) qs) (hlt : start + k < p.size)
    (htext : p.hasText (start + k) separator = true) :
    p.Tiling separator start (p.slice start (start + k) :: qs) where
  stretch :=
    List.forall_mem_cons.mpr ⟨slice_start_stop (Nat.le_add_right _ _) hlt.le, h.stretch⟩
  first := congrArg some (start_slice (Nat.le_add_right _ _) hlt.le)
  last := by
    cases qs with
    | nil => cases h.first
    | cons q' qs => exact h.last
  next := by
    refine List.isChain_cons.mpr ⟨fun q hq => ?_, h.next⟩
    have hnext := h.first
    rw [hq, Option.map_some, Option.some.injEq] at hnext
    rw [stop_slice (Nat.le_add_right _ _) hlt.le, Nat.add_sub_cancel_left]
    exact ⟨htext, hnext⟩

/-! ## One pass over the whole phrase -/

section Pass

variable {pos : Nat}

theorem not_isOutside_of_eq_none (hdepth : p.depthAt start = 0)
    (hk : ScriptReader.findOutside? text 0 (p.tokens.drop start) = none) (hpos : start ≤ pos) :
    ¬ p.IsOutside text pos := by
  obtain ⟨n, rfl⟩ := Nat.exists_eq_add_of_le hpos
  rw [isOutside_add_iff hdepth]
  exact not_meetsAt_of_findOutside? hk n

theorem isOutside_of_eq_some (hdepth : p.depthAt start = 0)
    (hk : ScriptReader.findOutside? text 0 (p.tokens.drop start) = some k) :
    p.IsOutside text (start + k) :=
  (isOutside_add_iff hdepth).mpr (isLeast_of_findOutside? hk).1

theorem not_isOutside_of_lt (hdepth : p.depthAt start = 0)
    (hk : ScriptReader.findOutside? text 0 (p.tokens.drop start) = some k) (hpos : start ≤ pos)
    (hlt : pos < start + k) : ¬ p.IsOutside text pos := by
  obtain ⟨n, rfl⟩ := Nat.exists_eq_add_of_le hpos
  rw [isOutside_add_iff hdepth]
  exact fun hmeets => Nat.not_le_of_gt (Nat.lt_of_add_lt_add_left hlt)
    ((isLeast_of_findOutside? hk).2 hmeets)

end Pass

/-- The places where one pass over the whole phrase meets the text at depth zero. -/
def placesOutside (text : String) (p : Phrase) : List Nat :=
  (List.range p.size).filter fun pos => p.IsOutside text pos

namespace SplitsInto

theorem tiling (h : p.SplitsInto separator (some start) qs) (hstart : start ≤ p.size) :
    p.Tiling separator start qs := by
  refine h.induction_on hstart (fun start hstart _ => ?_) fun start k qs hk ih => ?_
  · exact Tiling.last_segment separator hstart
  · obtain ⟨hlt, htext⟩ := hasText_of_findOutside? hk
    exact ih.cons hlt htext

/-- **No separator stands outside the brackets of a segment.** -/
theorem findOutside?_eq_none (h : p.SplitsInto separator (some start) qs)
    (hstart : start ≤ p.size) : ∀ q ∈ qs, q.findOutside? separator = none := by
  refine h.induction_on hstart (fun start hstart hk => ?_) fun start k qs hk ih => ?_
  · rw [List.forall_mem_singleton, drop_eq hstart]
    exact hk
  · refine List.forall_mem_cons.mpr ⟨?_, ih⟩
    rw [slice_eq (Nat.le_add_right _ _) (hasText_of_findOutside? hk).1.le, Nat.add_sub_cancel_left]
    exact findOutside?_take hk

/-- Every step but the last goes over a separator. -/
theorem length_le (h : p.SplitsInto separator (some start) qs) (hstart : start ≤ p.size) :
    qs.length + start ≤ p.size + 1 := by
  refine h.induction_on hstart (fun start hstart _ => ?_) fun start k qs hk ih => ?_
  · rw [List.length_singleton]
    omega
  · rw [List.length_cons]
    omega

/-- **There is a segment more than places where one pass meets the separator at depth zero.**
Behind a separator that is no bracket that pass is at depth zero, just as the one that begins
there. -/
theorem length_eq (h : p.SplitsInto separator (some start) qs) (hstart : start ≤ p.size)
    (ho : ofOpenerText? separator = none) (hc : ofCloserText? separator = none) :
    p.depthAt start = 0 → qs.length
      = ((List.range' start (p.size - start)).filter fun pos => p.IsOutside separator pos).length
        + 1 := by
  refine h.induction_on hstart (fun start hstart hk hdepth => ?_) fun start k qs hk ih hdepth => ?_
  · have hnone : ∀ pos ∈ List.range' start (p.size - start),
        ¬ decide (p.IsOutside separator pos) = true := fun pos hpos hout =>
      not_isOutside_of_eq_none hdepth hk (List.mem_range'_1.mp hpos).1 (of_decide_eq_true hout)
    rw [List.filter_eq_nil_iff.mpr hnone]
    rfl
  · have hout := isOutside_of_eq_some hdepth hk
    have hnone : ∀ pos ∈ List.range' start k, ¬ decide (p.IsOutside separator pos) = true :=
      fun pos hpos hout => not_isOutside_of_lt hdepth hk (List.mem_range'_1.mp hpos).1
        (List.mem_range'_1.mp hpos).2 (of_decide_eq_true hout)
    have hrange : List.range' start (p.size - start)
        = List.range' start k
          ++ (start + k) :: List.range' (start + k + 1) (p.size - (start + k + 1)) := by
      have hlt := hout.lt_size
      have hsize : p.size - start = k + (p.size - (start + k + 1) + 1) := by omega
      rw [hsize, ← List.range'_append_1, List.range'_succ]
    rw [List.length_cons, ih (hout.depthAt_succ ho hc), hrange, List.filter_append,
      List.filter_eq_nil_iff.mpr hnone, List.nil_append, List.filter_cons,
      if_pos (decide_eq_true hout), List.length_cons]

end SplitsInto

/-- **Splitting is exact.**  Taken off one by one, the segments are those of the phrase, and they
come to an end; an empty phrase has none.  Those of any other phrase tile it, with one separator
between any two, and in none of them the separator stands outside brackets.  If the separator is no
bracket, there is one segment more than places where a single pass over the phrase meets it at depth
zero. -/
theorem segments_exact (separator : String) (p : Phrase) :
    p.SplitsInto separator p.firstSegment (p.segments separator)
      ∧ (p.segments separator).length ≤ p.size + 1
      ∧ (p.tokens = [] → p.segments separator = [])
      ∧ (p.tokens ≠ [] → p.Tiling separator 0 (p.segments separator))
      ∧ (∀ q ∈ p.segments separator, q.findOutside? separator = none)
      ∧ (p.tokens ≠ [] → ofOpenerText? separator = none → ofCloserText? separator = none →
          (p.segments separator).length = (p.placesOutside separator).length + 1) := by
  have hsplits := p.splitsInto_segments separator
  by_cases hempty : p.tokens = []
  · have hnil : p.segments separator = [] := by
      rw [segments, isEmpty, hempty]
      rfl
    refine ⟨hsplits, ?_, fun _ => hnil, fun h => absurd hempty h, ?_, fun h => absurd hempty h⟩
    · rw [hnil]
      exact Nat.zero_le _
    · rw [hnil]
      exact List.forall_mem_nil _
  · have hfirst : p.firstSegment = some 0 := by
      rw [firstSegment, isEmpty_eq_false hempty]
      rfl
    have hall := hfirst ▸ hsplits
    have hzero : 0 ≤ p.size := Nat.zero_le _
    refine ⟨hsplits, hall.length_le hzero, fun h => absurd h hempty, fun _ => hall.tiling hzero,
      hall.findOutside?_eq_none hzero, fun _ ho hc => ?_⟩
    rw [placesOutside, List.range_eq_range']
    exact hall.length_eq hzero ho hc rfl

/-- Counting starts anew behind each comma, and a bracket that closes nothing does no harm. -/
theorem segments_exact_unbalanced :
    let p := whole ((["]", ",", "a", "(", "b", ",", "c", "]", ",", "d"] : List String).map
      fun text => ⟨.operator, text, 1⟩)
    p.tokens ≠ [] ∧ ofOpenerText? "," = none ∧ ofCloserText? "," = none
      ∧ p.placesOutside "," = [1, 8]
      ∧ p.Tiling "," 0 (p.segments ",")
      ∧ (p.segments ",").length = 3 := by
  intro p
  have hplaces : p.placesOutside "," = [1, 8] := by decide +kernel
  obtain ⟨-, -, -, htiling, -, hlength⟩ := segments_exact "," p
  have hcount := hlength nofun rfl rfl
  rw [hplaces] at hcount
  exact ⟨nofun, rfl, rfl, hplaces, htiling nofun, hcount⟩

end Phrase

end ScriptReader

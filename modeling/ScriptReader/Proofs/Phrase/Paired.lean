import ScriptReader.Proofs.Phrase.Outside
import ScriptReader.Proofs.Phrase.Partners

/-!
# Proofs/Phrase/Paired — in nested tokens, partners are what a stack of open brackets tells

A stack of open brackets goes over tokens, and where a bracket closes the innermost open one it
tells the two as a pair (`pairsFrom?`).  It gets to the end with nothing open just if the tokens are
nested (`Nested.exists_paired`, `nested_of_pairsFrom?`).  `Paired` says what it tells of nested
tokens: the pairs have nested tokens between them, every opening bracket is in one, and the depth
anywhere is the number of pairs that are open there.  `Phrase.matching_is_nesting` brings this
together with what holds of brackets nested in any way.
-/

namespace ScriptReader

open ScriptReader.Bracket

/-! ## A stack of open brackets -/

/-- **The pairs that a stack tells** as it goes over tokens from a position on: there are none if a
bracket closes what is not open innermost, or if one is left open.  The stack has the open brackets
with their positions, the innermost first. -/
def pairsFrom? (pos : Nat) (stack : List (Bracket × Nat)) : List Token → Option (List Pair)
  | [] => if stack.isEmpty then some [] else none
  | t :: ts =>
    match ofOpenerText? t.text, ofCloserText? t.text, stack with
    | some b, _, _ => pairsFrom? (pos + 1) ((b, pos) :: stack) ts
    | none, none, _ => pairsFrom? (pos + 1) stack ts
    | none, some b, (o, first) :: outer =>
      if o = b then (pairsFrom? (pos + 1) outer ts).map (⟨first, pos⟩ :: ·) else none
    | none, some _, [] => none

variable {pos n : Nat} {stack : List (Bracket × Nat)} {o c t : Token} {ts : List Token}

theorem pairsFrom?_plain (ht : t.IsPlain) :
    pairsFrom? pos stack (t :: ts) = pairsFrom? (pos + 1) stack ts := by
  simp only [pairsFrom?, ht.opener, ht.closer]

theorem pairsFrom?_opener {b : Bracket} (ho : o.text = b.openerText) :
    pairsFrom? pos stack (o :: ts) = pairsFrom? (pos + 1) ((b, pos) :: stack) ts := by
  simp only [pairsFrom?, ho, ofOpenerText?_openerText]

theorem pairsFrom?_closer {b : Bracket} (hc : c.text = b.closerText) :
    pairsFrom? pos stack (c :: ts)
      = match stack with
        | [] => none
        | (o, first) :: outer =>
          if o = b then (pairsFrom? (pos + 1) outer ts).map (⟨first, pos⟩ :: ·) else none := by
  cases stack <;> simp only [pairsFrom?, hc, ofOpenerText?_closerText, ofCloserText?_closerText]

/-- **Tokens over which the stack gets are nested**, behind others that leave open what is on it. -/
theorem nested_of_pairsFrom? {before : List Token} {open_ : Brackets} (hopen : Leaves before open_)
    (hstack : open_.map Prod.fst = stack.map Prod.fst) (h : (pairsFrom? pos stack ts).isSome) :
    Nested (before ++ ts) := by
  induction ts generalizing pos stack before open_ with
  | nil =>
    cases stack with
    | nil =>
      obtain rfl : open_ = [] := by simpa using hstack
      rw [List.append_nil]
      exact hopen
    | cons => cases h
  | cons t ts ih =>
    rw [List.append_cons]
    rcases t.bracket_cases with ht | ⟨b, ht⟩ | ⟨b, ht⟩
    · rw [pairsFrom?_plain ht] at h
      exact ih (hopen.append (Group.token ht).nested) hstack h
    · rw [pairsFrom?_opener ht] at h
      have hkinds : ((b, t.line) :: open_).map Prod.fst = ((b, pos) :: stack).map Prod.fst :=
        congrArg (b :: ·) hstack
      exact ih (hopen.opener ht) hkinds h
    · rw [pairsFrom?_closer ht] at h
      cases stack with
      | nil => cases h
      | cons s outer =>
        dsimp only at h
        split at h
        · next heq =>
          rw [Option.isSome_map] at h
          cases open_ with
          | nil => cases hstack
          | cons o inner =>
            obtain ⟨hkind, houter⟩ := List.cons.inj hstack
            exact ih (Leaves.closer hopen (by rw [hkind, heq, ht])) houter h
        · cases h

/-! ## What the stack tells of nested tokens -/

namespace Pair

/-- The pair is open before a position. -/
def IsOpen (pos : Nat) (x : Pair) : Prop := x.first < pos ∧ pos ≤ x.last

/-- A position is strictly between the two brackets. -/
def Holds (x : Pair) (pos : Nat) : Prop := x.first < pos ∧ pos < x.last

instance (pos : Nat) (x : Pair) : Decidable (x.IsOpen pos) := inferInstanceAs (Decidable (_ ∧ _))

instance (x : Pair) (pos : Nat) : Decidable (x.Holds pos) := inferInstanceAs (Decidable (_ ∧ _))

/-- Behind its first bracket, a pair is open up to its last one. -/
theorem isOpen_mk_iff {m : Nat} : (⟨pos, pos + (m + 1)⟩ : Pair).IsOpen (pos + 1 + n) ↔ n ≤ m := by
  simp only [IsOpen]
  omega

/-- **The pair is a bracket with its partner**, and what is between them is nested. -/
def Spans (pos : Nat) (ts : List Token) (x : Pair) : Prop :=
  ∃ (b : Bracket) (before inner behind : List Token) (o c : Token),
    ts = before ++ o :: (inner ++ c :: behind) ∧ o.text = b.openerText ∧ c.text = b.closerText
      ∧ Nested inner ∧ x.first = pos + before.length ∧ x.last = x.first + (inner.length + 1)

variable {x : Pair}

theorem Spans.bounds (h : x.Spans pos ts) :
    pos ≤ x.first ∧ x.first < x.last ∧ x.last < pos + ts.length := by
  obtain ⟨b, before, inner, behind, o, c, rfl, -, -, -, hfirst, hlast⟩ := h
  simp only [List.length_append, List.length_cons]
  omega

/-- A pair of a part is a pair of the whole. -/
theorem Spans.within (as bs : List Token) (h : x.Spans (pos + as.length) ts) :
    x.Spans pos (as ++ (ts ++ bs)) := by
  obtain ⟨b, before, inner, behind, o, c, rfl, ho, hc, hinner, hfirst, hlast⟩ := h
  refine ⟨b, as ++ before, inner, behind ++ bs, o, c, by simp, ho, hc, hinner, ?_, hlast⟩
  rw [hfirst, List.length_append, Nat.add_assoc]

end Pair

/-- **The stack passes over tokens from a position on, and tells these pairs of theirs.** -/
structure Paired (pos : Nat) (ts : List Token) (pairs : List Pair) : Prop where
  passes : ∀ stack rest, pairsFrom? pos stack (ts ++ rest)
    = (pairsFrom? (pos + ts.length) stack rest).map (pairs ++ ·)
  spans : ∀ x ∈ pairs, x.Spans pos ts
  /-- Every opening bracket is in a pair. -/
  opened : ∀ (n : Nat) (b : Bracket), ts[n]?.map Token.text = some b.openerText →
    ∃ x ∈ pairs, x.first = pos + n
  /-- The depth is the number of open pairs. -/
  depth : ∀ depth n, n ≤ ts.length →
    depthFrom depth (ts.take n) = depth + pairs.countP (·.IsOpen (pos + n))

namespace Paired

variable {pairs xs ys : List Pair} {as bs : List Token}

/-- Pairs are open only between their ends. -/
theorem countP_eq_zero (h : Paired pos ts pairs) (hn : n ≤ pos ∨ pos + ts.length ≤ n) :
    pairs.countP (·.IsOpen n) = 0 := by
  refine List.countP_eq_zero.mpr fun x hx hopen => ?_
  have hbounds := (h.spans x hx).bounds
  obtain ⟨hfirst, hlast⟩ := of_decide_eq_true hopen
  omega

/-- Behind all of the tokens the depth is what it was. -/
theorem depthFrom_eq (h : Paired pos ts pairs) (depth : Nat) : depthFrom depth ts = depth := by
  have hall := h.depth depth ts.length (Nat.le_refl _)
  rwa [List.take_length, h.countP_eq_zero (.inr (Nat.le_refl _))] at hall

theorem nil (pos : Nat) : Paired pos [] [] where
  passes stack rest := by simp
  spans := nofun
  opened := nofun
  depth depth n hn := by simp

theorem token (pos : Nat) (ht : t.IsPlain) : Paired pos [t] [] where
  passes stack rest := by simp [pairsFrom?_plain ht]
  spans := nofun
  opened n b hn := by
    cases n with
    | zero => exact absurd (by simpa using hn) (ht.ne_openerText b)
    | succ n => simp at hn
  depth depth n hn := by
    cases n with
    | zero => simp
    | succ n => simp [depthAfter_of_isPlain ht]

theorem append (ha : Paired pos as xs) (hb : Paired (pos + as.length) bs ys) :
    Paired pos (as ++ bs) (xs ++ ys) where
  passes stack rest := by
    rw [List.append_assoc, ha.passes, hb.passes, Option.map_map, List.length_append, Nat.add_assoc]
    exact congrArg (Option.map · _) (funext fun zs => (List.append_assoc xs ys zs).symm)
  spans x hx := by
    rcases List.mem_append.mp hx with hx | hx
    · exact (ha.spans x hx).within [] bs
    · have := (hb.spans x hx).within as []
      rwa [List.append_nil] at this
  opened n b hn := by
    rcases Nat.lt_or_ge n as.length with hlt | hge
    · rw [List.getElem?_append_left hlt] at hn
      obtain ⟨x, hx, hfirst⟩ := ha.opened n b hn
      exact ⟨x, List.mem_append_left ys hx, hfirst⟩
    · rw [List.getElem?_append_right hge] at hn
      obtain ⟨x, hx, hfirst⟩ := hb.opened _ b hn
      exact ⟨x, List.mem_append_right xs hx, by omega⟩
  depth depth n hn := by
    rw [List.length_append] at hn
    rw [List.take_append, depthFrom_append, List.countP_append]
    rcases Nat.le_total n as.length with hle | hge
    · -- none of the second pairs is open yet
      rw [ha.depth depth n hle, hb.countP_eq_zero (.inl (by omega)), Nat.sub_eq_zero_of_le hle]
      rfl
    · -- all of the first ones are closed again
      rw [List.take_of_length_le hge, ha.depthFrom_eq, hb.depth _ _ (by omega),
        ha.countP_eq_zero (n := pos + n) (.inr (by omega)), Nat.add_assoc pos,
        Nat.add_sub_cancel' hge, Nat.zero_add]

theorem bracketed (b : Bracket) (ho : o.text = b.openerText) (hc : c.text = b.closerText)
    (hts : Nested ts) (h : Paired (pos + 1) ts pairs) :
    Paired pos (o :: (ts ++ [c])) (pairs ++ [⟨pos, pos + (ts.length + 1)⟩]) where
  passes stack rest := by
    rw [List.cons_append, List.append_assoc, pairsFrom?_opener ho, h.passes, List.singleton_append,
      pairsFrom?_closer hc]
    simp only [if_true, List.length_cons, List.length_append, List.length_nil, Option.map_map]
    have hend : pos + (ts.length + (0 + 1) + 1) = pos + 1 + ts.length + 1 := by omega
    have hlast : pos + 1 + ts.length = pos + (ts.length + 1) := by omega
    rw [hend, hlast]
    exact congrArg (Option.map · _) (funext fun zs => (List.append_assoc pairs [_] zs).symm)
  spans x hx := by
    rcases List.mem_append.mp hx with hx | hx
    · exact (h.spans x hx).within [o] [c]
    · obtain rfl := List.mem_singleton.mp hx
      exact ⟨b, [], ts, [], o, c, rfl, ho, hc, hts, rfl, rfl⟩
  opened n b' hn := by
    cases n with
    | zero => exact ⟨_, List.mem_append_right _ List.mem_cons_self, rfl⟩
    | succ n =>
      rw [List.getElem?_cons_succ] at hn
      rcases Nat.lt_or_ge n ts.length with hlt | hge
      · rw [List.getElem?_append_left hlt] at hn
        obtain ⟨x, hx, hfirst⟩ := h.opened n b' hn
        exact ⟨x, List.mem_append_left _ hx, by omega⟩
      · rw [List.getElem?_append_right hge, List.getElem?_singleton] at hn
        split at hn
        · exact absurd (hc.symm.trans (Option.some.inj hn)).symm (openerText_ne_closerText _ _)
        · cases hn
  depth depth n hn := by
    rw [List.length_cons, List.length_append, List.length_singleton] at hn
    rw [List.countP_append, List.countP_singleton]
    simp only [decide_eq_true_eq]
    cases n with
    | zero =>
      rw [h.countP_eq_zero (.inl (by omega)), if_neg fun hopen => Nat.lt_irrefl pos hopen.1]
      rfl
    | succ n =>
      have hshift : pos + (n + 1) = pos + 1 + n := by omega
      rw [List.take_succ_cons, depthFrom_cons, ho, depthAfter_openerText, hshift]
      simp only [Pair.isOpen_mk_iff]
      rcases Nat.lt_or_ge ts.length n with hlt | hge
      · -- behind the closing bracket
        have hall : (ts ++ [c]).length ≤ n := by
          rw [List.length_append, List.length_singleton]
          exact hlt
        rw [List.take_of_length_le hall, depthFrom_append, h.depthFrom_eq, depthFrom_cons, hc,
          depthAfter_closerText, h.countP_eq_zero (.inr (by omega)), if_neg (Nat.not_le_of_gt hlt)]
        rfl
      · rw [List.take_append_of_le_length hge, h.depth _ n hge, if_pos hge]
        omega

theorem flatten {gs : List (List Token)} (h : ∀ g ∈ gs, ∀ pos, ∃ pairs, Paired pos g pairs)
    (pos : Nat) : ∃ pairs, Paired pos gs.flatten pairs := by
  induction gs generalizing pos with
  | nil => exact ⟨[], nil pos⟩
  | cons g gs ih =>
    obtain ⟨xs, hxs⟩ := h g List.mem_cons_self pos
    obtain ⟨ys, hys⟩ := ih (fun g hg => h g (List.mem_cons_of_mem _ hg)) (pos + g.length)
    exact ⟨xs ++ ys, hxs.append hys⟩

end Paired

theorem Group.exists_paired {g : List Token} (h : Group g) (pos : Nat) :
    ∃ pairs, Paired pos g pairs := by
  induction h generalizing pos with
  | token ht => exact ⟨[], Paired.token pos ht⟩
  | bracketed b ho hc hgs ih =>
    obtain ⟨pairs, hpairs⟩ := Paired.flatten ih (pos + 1)
    exact ⟨_, hpairs.bracketed b ho hc ⟨_, hgs, rfl⟩⟩

/-- **The stack passes over nested tokens.** -/
theorem Nested.exists_paired (h : Nested ts) (pos : Nat) : ∃ pairs, Paired pos ts pairs := by
  obtain ⟨gs, hgs, rfl⟩ := h
  exact Paired.flatten (fun g hg => (hgs g hg).exists_paired) pos

/-! ## Phrases -/

namespace Phrase

variable {p : Phrase} {pairs : List Pair} {x : Pair} {first : Nat}

/-- The pairs that a stack of open brackets tells of the phrase. -/
def pairs? (p : Phrase) : Option (List Pair) := pairsFrom? 0 [] p.tokens

theorem pairs?_of_paired (h : Paired 0 p.tokens pairs) : p.pairs? = some pairs := by
  have hend := h.passes [] []
  rw [List.append_nil, pairsFrom?, if_pos List.isEmpty_nil, Option.map_some,
    List.append_nil] at hend
  exact hend

/-- **A stack gets to the end of the phrase just if its brackets are nested.** -/
theorem nested_iff_pairs? : Nested p.tokens ↔ ∃ pairs, p.pairs? = some pairs := by
  refine ⟨fun h => ?_, fun ⟨pairs, hpairs⟩ => ?_⟩
  · obtain ⟨pairs, hpairs⟩ := h.exists_paired 0
    exact ⟨pairs, pairs?_of_paired hpairs⟩
  · have hnil : Leaves [] [] := Nested.nil
    exact nested_of_pairsFrom? hnil rfl (Option.isSome_of_mem hpairs)

theorem paired_of_pairs? (h : p.pairs? = some pairs) : Paired 0 p.tokens pairs := by
  obtain ⟨xs, hxs⟩ := (nested_iff_pairs?.mpr ⟨pairs, h⟩).exists_paired 0
  obtain rfl : pairs = xs := Option.some.inj (h.symm.trans (pairs?_of_paired hxs))
  exact hxs

/-- The bracket at a position is closed by the other end of its pair. -/
theorem closerOf_of_spans (h : x.Spans 0 p.tokens) : p.closerOf x.first = .ok x.last := by
  obtain ⟨b, before, inner, behind, o, c, hp, ho, hc, hinner, hfirst, hlast⟩ := h
  rw [Nat.zero_add] at hfirst
  have hdrop : p.tokens.drop x.first = o :: (inner ++ c :: behind) := by
    rw [hp, hfirst, List.drop_left]
  rw [hlast]
  exact closerOf_eq x.first b hdrop ho hc hinner

/-- **Every opening bracket has its partner in a pair.** -/
theorem exists_mem_of_opener (h : p.pairs? = some pairs) {b : Bracket}
    (hfirst : p.textAt first = b.openerText) :
    ∃ x ∈ pairs, x.first = first ∧ p.closerOf first = .ok x.last := by
  have hpaired := paired_of_pairs? h
  obtain ⟨x, hx, heq⟩ := hpaired.opened first b ((textAt_eq_iff b.openerText_ne_empty).mp hfirst)
  rw [Nat.zero_add] at heq
  exact ⟨x, hx, heq, heq ▸ closerOf_of_spans (hpaired.spans x hx)⟩

/-- **The partner is the one that the stack tells.** -/
theorem closerOf_eq_ok_iff_mem (h : p.pairs? = some pairs) :
    p.closerOf x.first = .ok x.last ↔ x ∈ pairs := by
  refine ⟨fun hclose => ?_, fun hx => closerOf_of_spans ((paired_of_pairs? h).spans x hx)⟩
  obtain ⟨b, hmatch⟩ := closerOf_eq_ok_iff.mp hclose
  obtain ⟨y, hy, hfirst, hlast⟩ := exists_mem_of_opener h hmatch.opener
  have hend : y.last = x.last := Except.ok.inj (hlast.symm.trans hclose)
  obtain rfl : y = x := Pair.ext hfirst hend
  exact hy

/-- **A text that is no bracket stands outside all brackets** where no pair holds it. -/
theorem isOutside_iff_not_holds (h : p.pairs? = some pairs) {text : String}
    (ho : ofOpenerText? text = none) (hc : ofCloserText? text = none) {pos : Nat} :
    p.IsOutside text pos ↔ p.hasText pos text = true ∧ ∀ x ∈ pairs, ¬ x.Holds pos := by
  have hpaired := paired_of_pairs? h
  refine and_comm.trans (and_congr_right fun htext => ?_)
  have hget := hasText_iff.mp htext
  obtain ⟨t, ht, rfl⟩ := Option.map_eq_some_iff.mp hget
  have hlt := (List.getElem?_eq_some_iff.mp ht).1
  have hdepth := hpaired.depth 0 pos hlt.le
  rw [depthAt, depthBehind_eq, hdepth]
  simp only [Nat.zero_add, List.countP_eq_zero, decide_eq_true_eq]
  refine forall₂_congr fun x hx => not_congr ?_
  -- the position is not that of a closing bracket
  have hne : pos ≠ x.last := fun heq => by
    obtain ⟨b, hmatch⟩ := closerOf_eq_ok_iff.mp (closerOf_of_spans (hpaired.spans x hx))
    have hclose := (textAt_eq_iff b.closerText_ne_empty).mp hmatch.closer
    rw [← heq, hget, Option.some.injEq] at hclose
    rw [hclose, ofCloserText?_closerText] at hc
    cases hc
  exact and_congr_right fun _ => ⟨fun hle => lt_of_le_of_ne hle hne, le_of_lt⟩

/-- **Matching is one relation, seen from both ends, and it is nesting.**  However badly brackets
are nested, counting to the right and counting to the left find the same pairs; these are brackets
of one kind, and two pairs of a kind do not cross.  The brackets are nested just if a stack gets
over them.  Then every opening bracket is closed, the pairs are those that the stack tells, and a
text that is no bracket is found outside all brackets where it first stands in no pair. -/
theorem matching_is_nesting (p : Phrase) :
    (∀ first last, p.closerOf first = .ok last ↔ p.openerOf last = .ok first)
      ∧ (∀ x : Pair, p.closerOf x.first = .ok x.last → x.first < x.last
          ∧ ∃ b : Bracket, p.textAt x.first = b.openerText ∧ p.textAt x.last = b.closerText)
      ∧ (∀ x y : Pair, p.closerOf x.first = .ok x.last → p.closerOf y.first = .ok y.last →
          p.textAt x.first = p.textAt y.first →
            x = y ∨ x.Before y ∨ y.Before x ∨ x.Within y ∨ y.Within x)
      ∧ (Nested p.tokens ↔ ∃ pairs, p.pairs? = some pairs)
      ∧ ∀ pairs, p.pairs? = some pairs →
          (∀ (b : Bracket) (first : Nat), p.textAt first = b.openerText →
            ∃ last, p.closerOf first = .ok last)
          ∧ (∀ x : Pair, p.closerOf x.first = .ok x.last ↔ x ∈ pairs)
          ∧ ∀ text, ofOpenerText? text = none → ofCloserText? text = none →
              (∀ pos, p.findOutside? text = some pos
                ↔ IsLeast {n | p.hasText n text = true ∧ ∀ x ∈ pairs, ¬ x.Holds n} pos)
              ∧ (p.findOutside? text = none
                ↔ ∀ n, p.hasText n text = true → ∃ x ∈ pairs, x.Holds n) := by
  refine ⟨fun first last => closerOf_eq_ok_iff.trans openerOf_eq_ok_iff.symm, fun x hx => ?_,
    fun x y hx hy htext => ?_, nested_iff_pairs?, fun pairs h => ⟨fun b first hfirst => ?_,
      fun x => closerOf_eq_ok_iff_mem h, fun text ho hc => ⟨fun pos => ?_, ?_⟩⟩⟩
  · obtain ⟨b, hmatch⟩ := closerOf_eq_ok_iff.mp hx
    exact ⟨hmatch.lt, b, hmatch.opener, hmatch.closer⟩
  · obtain ⟨b, hxb⟩ := closerOf_eq_ok_iff.mp hx
    obtain ⟨b', hyb⟩ := closerOf_eq_ok_iff.mp hy
    obtain rfl : b = b' := openerText_inj (hxb.opener.symm.trans (htext.trans hyb.opener))
    exact hxb.laminar hyb
  · obtain ⟨x, -, -, hlast⟩ := exists_mem_of_opener h hfirst
    exact ⟨x.last, hlast⟩
  · rw [findOutside?_eq_some_iff]
    simp only [isOutside_iff_not_holds h ho hc]
  · rw [findOutside?_eq_none_iff]
    simp only [isOutside_iff_not_holds h ho hc, not_and, not_forall, not_not, exists_prop]

/-- Counting one kind only, pairs of two kinds may cross. -/
example : (whole [⟨.operator, "(", 1⟩, ⟨.operator, "[", 1⟩, ⟨.operator, ")", 1⟩,
    ⟨.operator, "]", 1⟩]).closerOf 0 = .ok 2
      ∧ (whole [⟨.operator, "(", 1⟩, ⟨.operator, "[", 1⟩, ⟨.operator, ")", 1⟩,
        ⟨.operator, "]", 1⟩]).openerOf 3 = .ok 1 := ⟨rfl, rfl⟩

/-- In `f(a[i, j], (v, [w])), b` the stack tells four pairs, and the last comma is the first one
outside of them. -/
theorem matching_is_nesting_call :
    let p := whole (Source.ofString "f(a[i, j], (v, [w])), b").scan.tokens
    let pairs : List Pair := [⟨3, 7⟩, ⟨12, 14⟩, ⟨9, 15⟩, ⟨1, 16⟩]
    p.pairs? = some pairs ∧ Nested p.tokens
      ∧ p.textAt 9 = round.openerText ∧ (∃ last, p.closerOf 9 = .ok last)
      ∧ p.closerOf 9 = .ok 15 ∧ p.openerOf 15 = .ok 9 ∧ p.closerOf 1 = .ok 16
      ∧ ((⟨9, 15⟩ : Pair) = ⟨1, 16⟩ ∨ (⟨9, 15⟩ : Pair).Before ⟨1, 16⟩
        ∨ (⟨1, 16⟩ : Pair).Before ⟨9, 15⟩ ∨ (⟨9, 15⟩ : Pair).Within ⟨1, 16⟩
        ∨ (⟨1, 16⟩ : Pair).Within ⟨9, 15⟩)
      ∧ p.findOutside? "," = some 17
      ∧ IsLeast {n | p.hasText n "," = true ∧ ∀ x ∈ pairs, ¬ x.Holds n} 17 := by
  intro p pairs
  have hpairs : p.pairs? = some pairs := by decide +kernel
  have hcomma : p.findOutside? "," = some 17 := by decide +kernel
  have hnine : p.textAt 9 = round.openerText := by decide +kernel
  have hone : p.textAt 9 = p.textAt 1 := by decide +kernel
  obtain ⟨hends, -, hlaminar, hnested, hstack⟩ := matching_is_nesting p
  obtain ⟨hclosed, hmem, houtside⟩ := hstack pairs hpairs
  have hinner : p.closerOf 9 = .ok 15 := (hmem ⟨9, 15⟩).mpr (by decide)
  have houter : p.closerOf 1 = .ok 16 := (hmem ⟨1, 16⟩).mpr (by decide)
  exact ⟨hpairs, hnested.mpr ⟨pairs, hpairs⟩, hnine, hclosed round 9 hnine, hinner,
    (hends 9 15).mp hinner, houter, hlaminar ⟨9, 15⟩ ⟨1, 16⟩ hinner houter hone, hcomma,
    ((houtside "," rfl rfl).1 17).mp hcomma⟩

end Phrase

end ScriptReader

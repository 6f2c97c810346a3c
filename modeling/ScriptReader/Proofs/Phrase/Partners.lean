import ScriptReader.Proofs.Phrase.Nesting

/-!
# Proofs/Phrase/Partners — a bracket and its partner, told from either end

However badly brackets are nested, those of one kind have a level at each position: how many more
were opened than closed before it (`Phrase.level`).  A bracket and its partner are the ends of a
stretch over which that level is higher than at either end (`Phrase.Matches`), which says the same
from the left and from the right.  So it is what counting to the right finds from the opening
bracket (`Phrase.closerOf_eq_ok_iff`), and counting to the left from the closing one
(`Phrase.openerOf_eq_ok_iff`); and two such stretches do not cross (`Phrase.Matches.laminar`).
-/

namespace ScriptReader

namespace Bracket

theorem openerText_ne_empty (b : Bracket) : b.openerText ≠ "" := by cases b <;> decide

theorem closerText_ne_empty (b : Bracket) : b.closerText ≠ "" := by cases b <;> decide

end Bracket

open ScriptReader.Bracket

/-! ## Counting two texts against each other -/

/-- How many more of the tokens have the first text than the second. -/
def excess (own other : String) (ts : List Token) : Int :=
  (ts.countP (·.text = own) : Int) - ts.countP (·.text = other)

variable {own other : String} {k : Nat} {t : Token} {ts : List Token}

@[simp] theorem excess_nil : excess own other [] = 0 := rfl

theorem excess_append (as bs : List Token) :
    excess own other (as ++ bs) = excess own other as + excess own other bs := by
  simp only [excess, List.countP_append, Int.natCast_add]
  omega

theorem excess_cons (t : Token) (ts : List Token) :
    excess own other (t :: ts) = excess own other [t] + excess own other ts :=
  excess_append [t] ts

/-- From the other side, the texts change places. -/
theorem excess_reverse (ts : List Token) :
    excess other own ts.reverse = -excess own other ts := by
  simp only [excess, List.countP_reverse]
  omega

theorem excess_own (hne : own ≠ other) (ht : t.text = own) : excess own other [t] = 1 := by
  simp [excess, ht, hne]

theorem excess_other (hne : own ≠ other) (ht : t.text = other) : excess own other [t] = -1 := by
  simp [excess, ht, hne.symm]

theorem excess_plain (ho : t.text ≠ own) (hc : t.text ≠ other) : excess own other [t] = 0 := by
  simp [excess, ho, hc]

/-! ## The place of the partner -/

section ComesDown

/-- **The level comes down to zero** for the first time at a place, where the second text stands. -/
structure ComesDown (own other : String) (level : Int) (ts : List Token) (k : Nat) : Prop where
  text : ts[k]?.map Token.text = some other
  level_eq : level + excess own other (ts.take k) = 1
  le_level : ∀ n ≤ k, 1 ≤ level + excess own other (ts.take n)

variable {level : Int}

theorem not_comesDown_nil : ¬ ComesDown own other level [] k := fun h => by
  simpa using h.text

theorem comesDown_zero :
    ComesDown own other level (t :: ts) 0 ↔ t.text = other ∧ level = 1 := by
  refine ⟨fun h => ⟨by simpa using h.text, by simpa using h.level_eq⟩, ?_⟩
  rintro ⟨ht, hlevel⟩
  refine ⟨by simpa using ht, by simpa using hlevel, fun n hn => ?_⟩
  obtain rfl := Nat.le_zero.mp hn
  simp [hlevel]

theorem comesDown_succ :
    ComesDown own other level (t :: ts) (k + 1)
      ↔ 1 ≤ level ∧ ComesDown own other (level + excess own other [t]) ts k := by
  have hshift (n : Nat) : level + excess own other ((t :: ts).take (n + 1))
      = level + excess own other [t] + excess own other (ts.take n) := by
    rw [List.take_succ_cons, excess_cons, Int.add_assoc]
  refine ⟨fun h => ⟨by simpa using h.le_level 0 (Nat.zero_le _), ?_⟩, fun ⟨hlevel, h⟩ => ?_⟩
  · exact ⟨by simpa using h.text, (hshift k).symm.trans h.level_eq,
      fun n hn => hshift n ▸ h.le_level (n + 1) (Nat.succ_le_succ hn)⟩
  · refine ⟨by simpa using h.text, (hshift k).trans h.level_eq, fun n hn => ?_⟩
    cases n with
    | zero => simpa using hlevel
    | succ n => exact (hshift n).symm ▸ h.le_level n (Nat.le_of_succ_le_succ hn)

/-- At level one, it comes down at the second text. -/
theorem comesDown_one (hne : own ≠ other) (ht : t.text = other) :
    ComesDown own other 1 (t :: ts) k ↔ 0 = k := by
  cases k with
  | zero => simp [comesDown_zero, ht]
  | succ k =>
    rw [comesDown_succ, excess_other hne ht]
    refine iff_of_false (fun h => ?_) (by simp)
    have := h.2.le_level 0 (Nat.zero_le _)
    simp at this

/-- Elsewhere, it comes down later. -/
theorem comesDown_later (hlevel : 1 ≤ level) (hstay : ¬ (t.text = other ∧ level = 1)) :
    ComesDown own other level (t :: ts) k
      ↔ ∃ j, ComesDown own other (level + excess own other [t]) ts j ∧ j + 1 = k := by
  cases k with
  | zero => simp [comesDown_zero, hstay]
  | succ k => simp [comesDown_succ, hlevel]

end ComesDown

/-- **Counting finds where the level comes down to zero.** -/
theorem partner?_eq_some_iff (hne : own ≠ other) {level : Nat} (hlevel : 1 ≤ level) :
    partner? own other level ts = some k ↔ ComesDown own other level ts k := by
  induction ts generalizing level k with
  | nil => exact iff_of_false (by simp [partner?]) not_comesDown_nil
  | cons t ts ih =>
    have hpos : (1 : Int) ≤ level := by omega
    rw [partner?]
    by_cases hown : t.text = own
    · rw [if_pos hown, Option.map_eq_some_iff,
        comesDown_later hpos fun h => hne (hown.symm.trans h.1), excess_own hne hown]
      simp only [ih (Nat.le_add_left 1 level), Int.natCast_add, Int.cast_ofNat_Int]
    · rw [if_neg hown]
      by_cases hother : t.text = other
      · rw [if_pos hother]
        split
        · next hle =>
          obtain rfl : level = 1 := Nat.le_antisymm hle hlevel
          rw [Option.some.injEq]
          exact (comesDown_one hne hother).symm
        · next hgt =>
          rw [Option.map_eq_some_iff, comesDown_later hpos fun h => hgt (by omega),
            excess_other hne hother]
          simp only [ih (Nat.le_sub_one_of_lt (Nat.lt_of_not_le hgt)), Int.natCast_sub hlevel,
            Int.cast_ofNat_Int, ← Int.sub_eq_add_neg]
      · rw [if_neg hother, Option.map_eq_some_iff, comesDown_later hpos fun h => hother h.1,
          excess_plain hown hother]
        simp only [ih hlevel, Int.add_zero]

/-- The same from the bracket whose partner is looked for. -/
theorem partner?_cons_eq_some_iff (hne : own ≠ other) (ht : t.text = own) :
    partner? own other 0 (t :: ts) = some k ↔ ∃ j, ComesDown own other 1 ts j ∧ j + 1 = k := by
  rw [partner?, if_pos ht, Option.map_eq_some_iff]
  simp only [Nat.zero_add, partner?_eq_some_iff hne (Nat.le_refl 1), Int.cast_ofNat_Int]

/-! ## Pairs -/

/-- The positions of an opening bracket and of its partner. -/
@[ext]
structure Pair where
  first : Nat
  last : Nat
  deriving DecidableEq, Repr

namespace Pair

/-- One pair ends before the other begins. -/
def Before (x y : Pair) : Prop := x.last < y.first

/-- One pair is strictly inside the other. -/
def Within (x y : Pair) : Prop := y.first < x.first ∧ x.last < y.last

end Pair

namespace Phrase

variable {p : Phrase} {b : Bracket} {pos first last : Nat} {x y : Pair}

theorem textAt_eq_iff {text : String} (hne : text ≠ "") :
    p.textAt pos = text ↔ p.tokens[pos]?.map Token.text = some text := by
  rw [textAt]
  cases p.tokens[pos]? with
  | none => simpa using hne.symm
  | some t => simp

/-- **How many more brackets of a kind are opened than closed** before a position. -/
def level (b : Bracket) (pos : Nat) (p : Phrase) : Int :=
  excess b.openerText b.closerText (p.tokens.take pos)

theorem level_add (b : Bracket) (pos n : Nat) (p : Phrase) :
    p.level b (pos + n)
      = p.level b pos + excess b.openerText b.closerText ((p.tokens.drop pos).take n) := by
  rw [level, level, List.take_add, excess_append]

theorem level_succ {t : Token} (h : p.tokens[pos]? = some t) :
    p.level b (pos + 1) = p.level b pos + excess b.openerText b.closerText [t] := by
  rw [level_add, List.take_one, List.head?_drop, h, Option.toList_some]

/-- **Two brackets of a kind belong together**: between them the level is higher than outside. -/
structure Matches (b : Bracket) (first last : Nat) (p : Phrase) : Prop where
  opener : p.textAt first = b.openerText
  closer : p.textAt last = b.closerText
  lt : first < last
  level_eq : p.level b (last + 1) = p.level b first
  level_lt : ∀ n, first < n → n ≤ last → p.level b first < p.level b n

/-- The token of a bracket, with the level behind it. -/
theorem exists_of_opener (h : p.textAt pos = b.openerText) :
    ∃ o, p.tokens[pos]? = some o ∧ o.text = b.openerText
      ∧ p.level b (pos + 1) = p.level b pos + 1 := by
  obtain ⟨o, ho, htext⟩ :=
    Option.map_eq_some_iff.mp ((textAt_eq_iff b.openerText_ne_empty).mp h)
  exact ⟨o, ho, htext, by rw [level_succ ho, excess_own (openerText_ne_closerText b b) htext]⟩

theorem exists_of_closer (h : p.textAt pos = b.closerText) :
    ∃ c, p.tokens[pos]? = some c ∧ c.text = b.closerText
      ∧ p.level b (pos + 1) = p.level b pos - 1 := by
  obtain ⟨c, hc, htext⟩ :=
    Option.map_eq_some_iff.mp ((textAt_eq_iff b.closerText_ne_empty).mp h)
  refine ⟨c, hc, htext, ?_⟩
  rw [level_succ hc, excess_other (openerText_ne_closerText b b) htext, Int.sub_eq_add_neg]

/-! ## From the left -/

/-- Behind an opening bracket, the level comes down at its partner. -/
theorem comesDown_right_iff (h : p.textAt first = b.openerText) (j : Nat) :
    ComesDown b.openerText b.closerText 1 (p.tokens.drop (first + 1)) j
      ↔ p.Matches b first (first + (j + 1)) := by
  obtain ⟨o, -, -, hlevel⟩ := exists_of_opener h
  have hshift (n : Nat) : 1 + excess b.openerText b.closerText
      ((p.tokens.drop (first + 1)).take n) = p.level b (first + 1 + n) - p.level b first := by
    have := p.level_add b (first + 1) n
    omega
  have hlast : first + (j + 1) = first + 1 + j := by omega
  have htext : (p.tokens.drop (first + 1))[j]?.map Token.text = some b.closerText
      ↔ p.textAt (first + (j + 1)) = b.closerText := by
    rw [List.getElem?_drop, textAt_eq_iff b.closerText_ne_empty, hlast]
  constructor
  · intro hdown
    have hcloser := htext.mp hdown.text
    obtain ⟨c, -, -, hbehind⟩ := exists_of_closer hcloser
    have hequal := hdown.level_eq
    rw [hshift, ← hlast] at hequal
    refine ⟨h, hcloser, by omega, by omega, fun n hn hle => ?_⟩
    have hopen := hdown.le_level (n - (first + 1)) (by omega)
    rw [hshift, Nat.add_sub_cancel' hn] at hopen
    omega
  · intro hmatch
    obtain ⟨c, -, -, hbehind⟩ := exists_of_closer hmatch.closer
    have hequal := hmatch.level_eq
    refine ⟨htext.mpr hmatch.closer, by rw [hshift, ← hlast]; omega, fun n hn => ?_⟩
    have hopen := hmatch.level_lt (first + 1 + n) (by omega) (by omega)
    rw [hshift]
    omega

theorem closerOf_opener_iff (h : p.textAt first = b.openerText) :
    p.closerOf first = .ok last ↔ p.Matches b first last := by
  obtain ⟨o, ho, hopen, -⟩ := exists_of_opener h
  obtain ⟨hlt, rfl⟩ := List.getElem?_eq_some_iff.mp ho
  have hpartner (k : Nat) : partner? b.openerText b.closerText 0 (p.tokens.drop first) = some k
      ↔ ∃ j, p.Matches b first (first + (j + 1)) ∧ j + 1 = k := by
    rw [List.drop_eq_getElem_cons hlt,
      partner?_cons_eq_some_iff (openerText_ne_closerText b b) hopen]
    simp only [comesDown_right_iff h]
  rw [closerOf, h, ofOpenerText?_openerText]
  constructor
  · intro hok
    dsimp only at hok
    split at hok
    · next k hk =>
      obtain ⟨j, hmatch, rfl⟩ := (hpartner k).mp hk
      cases hok
      exact hmatch
    · cases hok
  · intro hmatch
    obtain ⟨j, rfl⟩ : ∃ j, last = first + (j + 1) := ⟨last - first - 1, by have := hmatch.lt; omega⟩
    simp only [(hpartner (j + 1)).mpr ⟨j, hmatch, rfl⟩]

/-- **Counting to the right finds the partner of an opening bracket.** -/
theorem closerOf_eq_ok_iff : p.closerOf first = .ok last ↔ ∃ b, p.Matches b first last := by
  refine ⟨fun h => ?_, fun hmatch => ?_⟩
  · cases hb : ofOpenerText? (p.textAt first) with
    | none =>
      rw [closerOf, hb] at h
      cases h
    | some b => exact ⟨b, (closerOf_opener_iff (eq_openerText_of_ofOpenerText? hb)).mp h⟩
  · obtain ⟨b, hmatch⟩ := hmatch
    exact (closerOf_opener_iff hmatch.opener).mpr hmatch

/-! ## From the right -/

/-- Before a closing bracket, the level comes down at its partner, from the other side. -/
theorem comesDown_left_iff (h : p.textAt last = b.closerText) (j : Nat) :
    ComesDown b.closerText b.openerText 1 (p.tokens.take last).reverse j
      ↔ j < last ∧ p.Matches b (last - (j + 1)) last := by
  obtain ⟨c, hc, -, hlevel⟩ := exists_of_closer h
  have hlength : (p.tokens.take last).length = last :=
    List.length_take_of_le (Nat.le_of_lt (List.getElem?_eq_some_iff.mp hc).1)
  have hshift (n : Nat) : 1 + excess b.closerText b.openerText
      ((p.tokens.take last).reverse.take n) = p.level b (last - n) - p.level b (last + 1) := by
    have hsplit : p.level b last = p.level b (last - n)
        + excess b.openerText b.closerText ((p.tokens.take last).drop (last - n)) := by
      rw [level, level, ← Nat.min_eq_left (Nat.sub_le last n), ← List.take_take, ← excess_append,
        Nat.min_eq_left (Nat.sub_le last n), List.take_append_drop]
    rw [List.take_reverse, hlength, excess_reverse, hlevel, hsplit]
    omega
  have htext (hj : j < last) : (p.tokens.take last).reverse[j]?.map Token.text = some b.openerText
      ↔ p.textAt (last - (j + 1)) = b.openerText := by
    rw [List.getElem?_reverse (by omega), hlength, List.getElem?_take_of_lt (by omega),
      textAt_eq_iff b.openerText_ne_empty, Nat.sub_right_comm, Nat.sub_sub]
  constructor
  · intro hdown
    obtain ⟨_, ht, -⟩ := Option.map_eq_some_iff.mp hdown.text
    have hj : j < last := by
      simpa [hlength] using (List.getElem?_eq_some_iff.mp ht).1
    have hopener := (htext hj).mp hdown.text
    obtain ⟨o, -, -, hbehind⟩ := exists_of_opener hopener
    have hequal := hdown.level_eq
    have hnext : last - (j + 1) + 1 = last - j := by omega
    rw [hnext] at hbehind
    rw [hshift] at hequal
    refine ⟨hj, hopener, h, by omega, by omega, fun n hn hle => ?_⟩
    have hopen := hdown.le_level (last - n) (by omega)
    rw [hshift, Nat.sub_sub_self hle] at hopen
    omega
  · rintro ⟨hj, hmatch⟩
    obtain ⟨o, -, -, hbehind⟩ := exists_of_opener hmatch.opener
    have hequal := hmatch.level_eq
    have hnext : last - (j + 1) + 1 = last - j := by omega
    rw [hnext] at hbehind
    refine ⟨(htext hj).mpr hmatch.opener, by rw [hshift]; omega, fun n hn => ?_⟩
    have hopen := hmatch.level_lt (last - n) (by omega) (Nat.sub_le _ _)
    rw [hshift]
    omega

theorem openerOf_closer_iff (h : p.textAt last = b.closerText) :
    p.openerOf last = .ok first ↔ p.Matches b first last := by
  obtain ⟨c, hc, hclose, -⟩ := exists_of_closer h
  have hreverse : (p.tokens.take (last + 1)).reverse = c :: (p.tokens.take last).reverse := by
    rw [List.take_add_one, hc, Option.toList_some, List.reverse_append, List.reverse_singleton,
      List.singleton_append]
  have hpartner (k : Nat) :
      partner? b.closerText b.openerText 0 (p.tokens.take (last + 1)).reverse = some k
        ↔ ∃ j, (j < last ∧ p.Matches b (last - (j + 1)) last) ∧ j + 1 = k := by
    rw [hreverse, partner?_cons_eq_some_iff (openerText_ne_closerText b b).symm hclose]
    simp only [comesDown_left_iff h]
  rw [openerOf, h, ofCloserText?_closerText]
  constructor
  · intro hok
    dsimp only at hok
    split at hok
    · next k hk =>
      obtain ⟨j, hmatch, rfl⟩ := (hpartner k).mp hk
      cases hok
      exact hmatch.2
    · cases hok
  · intro hmatch
    have hlt := hmatch.lt
    obtain ⟨j, hj, rfl⟩ : ∃ j, j < last ∧ first = last - (j + 1) :=
      ⟨last - first - 1, by omega, by omega⟩
    simp only [(hpartner (j + 1)).mpr ⟨j, ⟨hj, hmatch⟩, rfl⟩]

/-- **Counting to the left finds the partner of a closing bracket.** -/
theorem openerOf_eq_ok_iff : p.openerOf last = .ok first ↔ ∃ b, p.Matches b first last := by
  refine ⟨fun h => ?_, fun hmatch => ?_⟩
  · cases hb : ofCloserText? (p.textAt last) with
    | none =>
      rw [openerOf, hb] at h
      cases h
    | some b => exact ⟨b, (openerOf_closer_iff (eq_closerText_of_ofCloserText? hb)).mp h⟩
  · obtain ⟨b, hmatch⟩ := hmatch
    exact (openerOf_closer_iff hmatch.closer).mpr hmatch

/-! ## Two pairs of one kind -/

/-- An opening bracket has one partner. -/
theorem Matches.eq_of_first_eq (hx : p.Matches b x.first x.last)
    (hy : p.Matches b y.first y.last) (h : x.first = y.first) : x = y := by
  have hlast := (closerOf_opener_iff hx.opener).mpr hx
  rw [h, (closerOf_opener_iff hy.opener).mpr hy] at hlast
  exact Pair.ext h (Except.ok.inj hlast).symm

/-- A pair that begins later ends before the other does, unless it begins behind it. -/
theorem Matches.before_or_within (hx : p.Matches b x.first x.last)
    (hy : p.Matches b y.first y.last) (h : x.first < y.first) : x.Before y ∨ y.Within x := by
  rcases Nat.lt_or_ge x.last y.first with hlt | hle
  · exact .inl hlt
  · refine .inr ⟨h, Nat.lt_of_not_le fun hge => ?_⟩
    -- behind the first pair the level is as low as before it, but the second pair is open there
    have hopen := hx.level_lt y.first h hle
    have hclosed := hx.level_eq
    rcases Nat.eq_or_lt_of_le hge with heq | hgt
    · have := hy.level_eq
      rw [← heq] at this
      omega
    · have := hy.level_lt (x.last + 1) (Nat.lt_succ_of_le hle) hgt
      omega

/-- **Two pairs of one kind do not cross.** -/
theorem Matches.laminar (hx : p.Matches b x.first x.last) (hy : p.Matches b y.first y.last) :
    x = y ∨ x.Before y ∨ y.Before x ∨ x.Within y ∨ y.Within x := by
  rcases Nat.lt_trichotomy x.first y.first with hlt | heq | hgt
  · rcases hx.before_or_within hy hlt with h | h <;> simp [h]
  · exact .inl (hx.eq_of_first_eq hy heq)
  · rcases hy.before_or_within hx hgt with h | h <;> simp [h]

end Phrase

end ScriptReader

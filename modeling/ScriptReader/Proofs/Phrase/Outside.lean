import Mathlib.Order.Bounds.Basic
import ScriptReader.Proofs.Source.Account

/-!
# Proofs/Phrase/Outside — where a text stands outside all brackets

One pass over the tokens of a phrase counts brackets of every kind as one depth
(`Phrase.depthAt`).  A text stands outside all brackets where the pass meets it at depth zero
(`Phrase.IsOutside`), and looking for it finds the first such place
(`Phrase.findOutside?_eq_some_iff`).
-/

namespace ScriptReader

open ScriptReader.Bracket

/-! ## One pass -/

/-- The depth behind tokens, if there were `depth` open brackets before them. -/
def depthFrom (depth : Nat) (ts : List Token) : Nat :=
  ts.foldl (fun depth t => depthAfter depth t.text) depth

@[simp] theorem depthFrom_nil (depth : Nat) : depthFrom depth [] = depth := rfl

@[simp] theorem depthFrom_cons (depth : Nat) (t : Token) (ts : List Token) :
    depthFrom depth (t :: ts) = depthFrom (depthAfter depth t.text) ts := rfl

theorem depthFrom_append (depth : Nat) (as bs : List Token) :
    depthFrom depth (as ++ bs) = depthFrom (depthFrom depth as) bs := List.foldl_append

theorem depthBehind_eq (ts : List Token) : depthBehind ts = depthFrom 0 ts := rfl

/-- The pass meets the text at a place while nothing is open. -/
def MeetsAt (text : String) (depth : Nat) (ts : List Token) (n : Nat) : Prop :=
  depthFrom depth (ts.take n) = 0 ∧ ts[n]?.map Token.text = some text

variable {text : String} {depth k n : Nat} {t : Token} {ts : List Token}

theorem meetsAt_zero : MeetsAt text depth (t :: ts) 0 ↔ depth = 0 ∧ t.text = text := by
  simp [MeetsAt]

theorem meetsAt_succ :
    MeetsAt text depth (t :: ts) (n + 1) ↔ MeetsAt text (depthAfter depth t.text) ts n := by
  simp [MeetsAt]

theorem MeetsAt.lt_length (h : MeetsAt text depth ts n) : n < ts.length := by
  obtain ⟨t, ht, -⟩ := Option.map_eq_some_iff.mp h.2
  exact (List.getElem?_eq_some_iff.mp ht).1

theorem not_meetsAt_of_findOutside? (h : findOutside? text depth ts = none) (n : Nat) :
    ¬ MeetsAt text depth ts n := by
  induction ts generalizing depth n with
  | nil => exact fun hn => Nat.not_lt_zero n hn.lt_length
  | cons t ts ih =>
    rw [findOutside?] at h
    split at h
    · cases h
    · next hne =>
      cases n with
      | zero => rwa [meetsAt_zero]
      | succ n =>
        rw [meetsAt_succ]
        exact ih (Option.map_eq_none_iff.mp h) n

theorem isLeast_of_findOutside? (h : findOutside? text depth ts = some k) :
    IsLeast {n | MeetsAt text depth ts n} k := by
  induction ts generalizing depth k with
  | nil => cases h
  | cons t ts ih =>
    rw [findOutside?] at h
    split at h
    · next heq =>
      cases h
      exact ⟨meetsAt_zero.mpr heq, fun _ _ => Nat.zero_le _⟩
    · next hne =>
      obtain ⟨j, hj, rfl⟩ := Option.map_eq_some_iff.mp h
      obtain ⟨hmeets, hleast⟩ := ih hj
      refine ⟨meetsAt_succ.mpr hmeets, fun n hn => ?_⟩
      cases n with
      | zero => exact absurd (meetsAt_zero.mp hn) hne
      | succ n => exact Nat.succ_le_succ (hleast (meetsAt_succ.mp hn))

/-! ## Phrases -/

namespace Phrase

/-- The depth of the pass before a position. -/
def depthAt (pos : Nat) (p : Phrase) : Nat := depthBehind (p.tokens.take pos)

/-- **A text stands outside all brackets**: the pass meets it at depth zero. -/
def IsOutside (text : String) (pos : Nat) (p : Phrase) : Prop :=
  p.depthAt pos = 0 ∧ p.hasText pos text = true

instance (text : String) (pos : Nat) (p : Phrase) : Decidable (p.IsOutside text pos) :=
  inferInstanceAs (Decidable (_ ∧ _))

variable {p : Phrase} {pos start : Nat}

theorem hasText_iff : p.hasText pos text = true ↔ p.tokens[pos]?.map Token.text = some text :=
  beq_iff_eq

theorem isOutside_iff : p.IsOutside text pos ↔ MeetsAt text 0 p.tokens pos :=
  and_congr_right fun _ => hasText_iff

theorem IsOutside.lt_size (h : p.IsOutside text pos) : pos < p.size :=
  (isOutside_iff.mp h).lt_length

/-- A pass that begins where nothing is open goes on like the one over the whole phrase. -/
theorem isOutside_add_iff (hstart : p.depthAt start = 0) :
    p.IsOutside text (start + n) ↔ MeetsAt text 0 (p.tokens.drop start) n := by
  rw [isOutside_iff, MeetsAt, MeetsAt, List.take_add, depthFrom_append, List.getElem?_drop]
  rw [depthAt, depthBehind_eq] at hstart
  rw [hstart]

theorem depthAt_succ (h : p.tokens[pos]? = some t) :
    p.depthAt (pos + 1) = depthAfter (p.depthAt pos) t.text := by
  rw [depthAt, List.take_add_one, h, Option.toList_some, depthBehind_concat]
  rfl

/-- Behind a text outside all brackets that is no bracket itself, nothing is open. -/
theorem IsOutside.depthAt_succ (h : p.IsOutside text pos) (ho : ofOpenerText? text = none)
    (hc : ofCloserText? text = none) : p.depthAt (pos + 1) = 0 := by
  obtain ⟨t, ht, rfl⟩ := Option.map_eq_some_iff.mp (hasText_iff.mp h.2)
  rw [Phrase.depthAt_succ ht, depthAfter_of_isPlain ⟨ho, hc⟩, h.1]

theorem findOutside?_eq_none_iff :
    p.findOutside? text = none ↔ ∀ pos, ¬ p.IsOutside text pos := by
  simp only [isOutside_iff]
  refine ⟨not_meetsAt_of_findOutside?, fun h => ?_⟩
  exact Option.eq_none_iff_forall_ne_some.mpr fun k hk => h k (isLeast_of_findOutside? hk).1

/-- **Looking for a text finds the first place where it stands outside all brackets.** -/
theorem findOutside?_eq_some_iff :
    p.findOutside? text = some pos ↔ IsLeast {n | p.IsOutside text n} pos := by
  refine ⟨fun h => ?_, fun h => ?_⟩
  · simp only [isOutside_iff]
    exact isLeast_of_findOutside? h
  · cases hk : p.findOutside? text with
    | none => exact absurd h.1 (findOutside?_eq_none_iff.mp hk pos)
    | some k =>
      have hleast := isLeast_of_findOutside? hk
      simp only [← isOutside_iff] at hleast
      rw [hleast.unique h]

end Phrase

end ScriptReader

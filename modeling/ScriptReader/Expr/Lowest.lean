import ScriptReader.Expr.Item

/-!
# Expr/Lowest — the operator that binds last

Of the operators among the items of a phrase, the one with the lowest rank binds last; of several
with that rank, the last one, or the first one where operators group from right to left.  It divides
the phrase into what stands left and right of it.
-/

namespace ScriptReader

/-- An item that is an operator. -/
structure Candidate where
  place : Nat
  /-- The number of tokens of the item. -/
  width : Nat
  op : Operator
  rank : Rank
  deriving DecidableEq, Repr

/-- The item as an operator, if it is one. -/
def Item.candidate? (x : Item) : Option Candidate :=
  match x.role with
  | .operator op rank => some ⟨x.place, x.tokens.length, op, rank⟩
  | _ => none

namespace Candidate

/-- Does the operator bind later than one before it? -/
def isLower (later earlier : Candidate) : Bool :=
  match later.rank.direction with
  | .leftToRight => later.rank.level ≤ earlier.rank.level
  | .rightToLeft => later.rank.level < earlier.rank.level

/-- The lower one of the lowest operator so far and the next one. -/
def lower : Option Candidate → Candidate → Option Candidate
  | none, c => some c
  | some best, c => if c.isLower best then some c else some best

/-- The operator that binds last, of operators in their order. -/
def lowest? (cs : List Candidate) : Option Candidate := cs.foldl lower none

theorem mem_of_foldl_lower {cs : List Candidate} {best : Option Candidate} {c : Candidate}
    (h : cs.foldl lower best = some c) : best = some c ∨ c ∈ cs := by
  induction cs generalizing best with
  | nil => exact .inl h
  | cons d cs ih =>
    rcases ih h with hd | hd
    · cases best with
      | none => cases hd; exact .inr List.mem_cons_self
      | some b =>
        simp only [lower] at hd
        split at hd <;> cases hd
        · exact .inr List.mem_cons_self
        · exact .inl rfl
    · exact .inr (List.mem_cons_of_mem _ hd)

theorem mem_of_lowest? {cs : List Candidate} {c : Candidate} (h : lowest? cs = some c) : c ∈ cs :=
  (mem_of_foldl_lower h).resolve_left (by simp)

end Candidate

/-- A phrase divided at an operator.  Right of an index or a slice is what stands between its
brackets; right of a call, an array or a dictionary is all from its bracket on. -/
structure Division where
  op : Operator
  left : Phrase
  right : Phrase
  deriving DecidableEq, Repr

namespace Phrase

/-- Divides a phrase at one of its operators. -/
def divide (c : Candidate) (p : Phrase) : Division :=
  ⟨c.op, p.take c.place,
    if c.op = .index ∨ c.op = .slice then p.slice (c.place + 1) (c.place + c.width - 1)
    else if c.op = .call ∨ c.op = .array ∨ c.op = .dictionary then p.drop c.place
    else p.drop (c.place + 1)⟩

/-- Divides a phrase at the operator that binds last, if there is an operator. -/
def lowest (p : Phrase) : Except Error (Option Division) :=
  (fun items => (Candidate.lowest? (items.filterMap Item.candidate?)).map p.divide) <$> p.items

/-! ## The parts are shorter -/

theorem exists_candidate_of_lowest {p : Phrase} {d : Division} (h : p.lowest = .ok (some d)) :
    ∃ c : Candidate, c.place < p.size ∧ d = p.divide c := by
  unfold lowest at h
  cases hi : p.items with
  | error e => rw [hi] at h; cases h
  | ok items =>
    rw [hi] at h
    obtain ⟨c, hc, rfl⟩ := Option.map_eq_some_iff.mp (Except.ok.inj h)
    obtain ⟨x, hx, hxc⟩ := List.mem_filterMap.mp (Candidate.mem_of_lowest? hc)
    refine ⟨c, ?_, rfl⟩
    unfold Item.candidate? at hxc
    split at hxc <;> cases hxc
    exact place_lt_of_mem_items hi hx

theorem size_left_lt {p : Phrase} {d : Division} (h : p.lowest = .ok (some d)) :
    d.left.size < p.size := by
  obtain ⟨c, hc, rfl⟩ := exists_candidate_of_lowest h
  exact size_take_lt hc

/-- Both parts of a division are stretches of the phrase. -/
theorem exists_slices_of_lowest {p : Phrase} {d : Division} (h : p.lowest = .ok (some d)) :
    ∃ pos first last, d.left = p.slice 0 pos ∧ d.right = p.slice first last := by
  obtain ⟨c, -, rfl⟩ := exists_candidate_of_lowest h
  refine ⟨c.place, ?_⟩
  simp only [divide]
  repeat' split
  all_goals exact ⟨_, _, rfl, rfl⟩

theorem size_right_le {p : Phrase} {d : Division} (h : p.lowest = .ok (some d)) :
    d.right.size ≤ p.size := by
  obtain ⟨-, first, last, -, hright⟩ := exists_slices_of_lowest h
  exact hright ▸ size_slice_le first last p

theorem size_right_lt {p : Phrase} {d : Division} (h : p.lowest = .ok (some d))
    (hcall : d.op ≠ .call) (harray : d.op ≠ .array) (hdict : d.op ≠ .dictionary) :
    d.right.size < p.size := by
  obtain ⟨c, hc, rfl⟩ := exists_candidate_of_lowest h
  simp only [divide] at hcall harray hdict ⊢
  split
  · rw [size_slice]; omega
  · rw [if_neg (by simp [hcall, harray, hdict])]
    exact size_drop_lt (Nat.succ_pos _) (by omega)

end Phrase

end ScriptReader

import ScriptReader.Proofs.Expr.Inversion

/-!
# Proofs/Expr/Sides — what stands left of an operator

An operator without a left operand stands where no operand is complete, as the first item of its
phrase (`Expr.uses_of_unary`).  One with a left operand stands behind a complete operand
(`Expr.uses_of_binary`): else what is left of it would end in an operator, and such a phrase cannot
be read (`Expr.not_read_of_operator_last`).  Tokens bind later than brackets do, so that it is
divided at a token, and what is right of this ends in the same operator or is empty.
-/

namespace ScriptReader

/-! ## The lowest operator is the lowest of all -/

namespace Candidate

theorem exists_lower (best : Option Candidate) (c : Candidate) :
    ∃ b, lower best c = some b ∧ b.rank.level ≤ c.rank.level
      ∧ ∀ d ∈ best, b.rank.level ≤ d.rank.level := by
  cases best with
  | none => exact ⟨c, rfl, Nat.le_refl _, nofun⟩
  | some d =>
    rw [lower]
    by_cases hrank : d.rank.level < c.rank.level
    · rw [not_isLower_of_lt hrank, if_neg Bool.false_ne_true]
      exact ⟨d, rfl, hrank.le, fun _ hd => (Option.some.inj hd ▸ Nat.le_refl _)⟩
    · have hle : c.rank.level ≤ d.rank.level := Nat.le_of_not_lt hrank
      split
      · exact ⟨c, rfl, Nat.le_refl _, fun _ hd => Option.some.inj hd ▸ hle⟩
      · next hnot =>
        have hnlt : ¬c.rank.level < d.rank.level := fun hlt => hnot (isLower_of_lt hlt)
        exact ⟨d, rfl, Nat.le_of_not_lt hnlt, fun _ hd => Option.some.inj hd ▸ Nat.le_refl _⟩

theorem exists_foldl_lower {cs : List Candidate} {best : Option Candidate} {c : Candidate}
    (h : best = some c ∨ c ∈ cs) :
    ∃ b, cs.foldl lower best = some b ∧ b.rank.level ≤ c.rank.level := by
  induction cs generalizing best c with
  | nil => exact ⟨c, h.resolve_right (by simp), Nat.le_refl _⟩
  | cons d cs ih =>
    obtain ⟨b, hb, hbd, hbest⟩ := exists_lower best d
    rw [List.foldl_cons, hb]
    rcases h with rfl | h
    · obtain ⟨a, ha, hab⟩ := ih (.inl rfl)
      exact ⟨a, ha, hab.trans (hbest c rfl)⟩
    rcases List.mem_cons.mp h with rfl | h
    · obtain ⟨a, ha, hab⟩ := ih (.inl rfl)
      exact ⟨a, ha, hab.trans hbd⟩
    · exact ih (.inr h)

/-- **If there is an operator, there is one that binds last**, and none has a lower rank. -/
theorem exists_lowest?_of_mem {cs : List Candidate} {c : Candidate} (h : c ∈ cs) :
    ∃ b, lowest? cs = some b ∧ b.rank.level ≤ c.rank.level :=
  exists_foldl_lower (.inr h)

end Candidate

/-! ## Tokens bind later than brackets -/

theorem suffixRank_le_of_roleOf {b : Bracket} {g : List Token} {before : Option Role}
    {op : Operator} {rank : Rank} (hg : IsBracketed b g)
    (h : Role.of before g = .operator op rank) : suffixRank.level ≤ rank.level := by
  obtain ⟨o, c, inner, rfl, ho, -⟩ := hg
  rw [roleOf_bracketed ho] at h
  unfold Role.ofGroup at h
  repeat' split at h
  all_goals cases h
  all_goals decide

/-- Behind brackets an operand is complete. -/
theorem endsOperand_roleOf_isBracketed {b : Bracket} {g : List Token} {before : Option Role}
    (hg : IsBracketed b g) : endsOperand (some (Role.of before g)) = true := by
  obtain ⟨o, c, inner, rfl, ho, -⟩ := hg
  rw [roleOf_bracketed ho]
  unfold Role.ofGroup
  repeat' split
  all_goals rfl

/-- A token that is an operator is one wherever it stands. -/
theorem exists_roleOf_ranked {t : Token} {r : Operator × Rank} (h : t.ranked? = some r)
    (ht : Bracket.ofOpenerText? t.text = none) (before : Option Role) :
    ∃ rank, Role.of before [t] = .operator r.1 rank ∧ rank.level < suffixRank.level := by
  have hranking : ∀ r ∈ ranking, r.2.level < suffixRank.level
      ∧ (r.1 = .plus ∨ r.1 = .minus → r.2.boosted.level < suffixRank.level) := by decide
  obtain ⟨hrank, hboosted⟩ := hranking _ (mem_ranking h).1
  simp only [Role.of, ht, Role.ofToken, h]
  split
  · next hsign => exact ⟨r.2.boosted, rfl, hboosted hsign.1⟩
  · exact ⟨r.2, rfl, hrank⟩

/-- An operator is no bracket. -/
theorem isPlain_of_ranked {t : Token} {r : Operator × Rank} (h : t.ranked? = some r) :
    t.IsPlain := by
  have hplain : ∀ r ∈ ranking, Bracket.ofOpenerText? r.1.symbol = none
      ∧ Bracket.ofCloserText? r.1.symbol = none := by decide
  obtain ⟨hmem, htext⟩ := mem_ranking h
  obtain ⟨hopener, hcloser⟩ := hplain _ hmem
  exact ⟨htext ▸ hopener, htext ▸ hcloser⟩

/-! ## Phrases that end in an operator -/

namespace Phrase

variable {p q : Phrase} {ts : List Token} {t : Token} {r : Operator × Rank}

/-- What ends in an operator is not bracketed. -/
theorem not_isBracketed_of_operator_last (ht : t.ranked? = some r) (b : Bracket) :
    ¬IsBracketed b (ts ++ [t]) := by
  rintro ⟨o, c, inner, h, -, hc⟩
  rw [← List.cons_append] at h
  obtain rfl := List.singleton_inj.mp (List.append_inj' h rfl).2
  exact (isPlain_of_ranked ht).ne_closerText b hc

theorem unwrap_of_operator_last (hp : p.tokens = ts ++ [t]) (ht : t.ranked? = some r)
    (h : p.unwrap = .ok q) : q = p := by
  rw [unwrap] at h
  split at h
  · cases h
  · cases h
    rfl
  · next henclosed =>
    exact absurd (hp ▸ isBracketed_of_isEnclosed henclosed)
      (not_isBracketed_of_operator_last ht .round)

/-- The last group is the operator. -/
theorem exists_groupsFrom_of_operator_last {pos : Nat} {groups : List (List Token)}
    (ht : t.ranked? = some r) (h : p.groupsFrom pos (ts ++ [t]) = .ok groups) :
    ∃ as, groups = as ++ [[t]] := by
  obtain ⟨hflat, hne⟩ := flatten_groupsFrom h
  rcases List.eq_nil_or_concat groups with rfl | ⟨as, g, rfl⟩
  · simp at hflat
  rw [List.concat_eq_append] at h hflat hne ⊢
  refine ⟨as, ?_⟩
  rw [List.flatten_append, List.flatten_singleton] at hflat
  rcases groupsFrom_cases h g (by simp) with ⟨u, rfl, -⟩ | ⟨b, o, c, inner, rfl, -, hc⟩
  · rw [(List.append_inj' hflat rfl).2]
  · rw [← List.cons_append, ← List.append_assoc] at hflat
    obtain rfl := List.singleton_inj.mp (List.append_inj' hflat rfl).2
    exact absurd hc ((isPlain_of_ranked ht).ne_closerText b)

/-- This operator binds later than brackets. -/
theorem exists_candidate_of_operator_last {groups : List (List Token)}
    (hp : p.tokens = ts ++ [t]) (ht : t.ranked? = some r)
    (h : p.groupsFrom 0 p.tokens = .ok groups) :
    ∃ c ∈ operatorsFrom 0 none groups, c.rank.level < suffixRank.level := by
  obtain ⟨as, rfl⟩ := exists_groupsFrom_of_operator_last ht (hp ▸ h)
  obtain ⟨rank, hrole, hrank⟩ :=
    exists_roleOf_ranked ht (isPlain_of_ranked ht).opener (roleAfter none as)
  refine ⟨⟨0 + as.flatten.length, 1, r.1, rank⟩, ?_, hrank⟩
  rw [operatorsFrom_append, operatorsFrom_cons_operator hrole]
  simp

/-- So does the one that binds last. -/
theorem IsDividedAt.rank_lt {as bs : List (List Token)} {g : List Token} {op : Operator}
    {rank : Rank} (h : p.IsDividedAt as g bs op rank) (hp : p.tokens = ts ++ [t])
    (ht : t.ranked? = some r) : rank.level < suffixRank.level := by
  obtain ⟨c, hc, hrank⟩ := exists_candidate_of_operator_last hp ht h.groups
  obtain ⟨b, hb, hle⟩ := Candidate.exists_lowest?_of_mem hc
  obtain rfl := Option.some.inj (hb.symm.trans h.lowest)
  exact Nat.lt_of_le_of_lt hle hrank

/-- A phrase that ends in an operator is divided. -/
theorem exists_lowest_of_operator_last {d? : Option Division} (hp : p.tokens = ts ++ [t])
    (ht : t.ranked? = some r) (h : p.lowest = .ok d?) : ∃ d, d? = some d := by
  rw [lowest, items] at h
  cases hg : p.groupsFrom 0 p.tokens with
  | error e =>
    rw [hg] at h
    cases h
  | ok groups =>
    obtain ⟨c, hc, -⟩ := exists_candidate_of_operator_last hp ht hg
    obtain ⟨b, hb, -⟩ := Candidate.exists_lowest?_of_mem hc
    rw [operatorsFrom] at hb
    rw [hg] at h
    exact ⟨p.divide b, (Except.ok.inj h).symm.trans (congrArg (Option.map p.divide) hb)⟩

/-- **It is divided at a token.** -/
theorem exists_ranked_of_operator_last {d : Division} (hp : p.tokens = ts ++ [t])
    (ht : t.ranked? = some r) (h : p.lowest = .ok (some d)) :
    ∃ u rank, u.ranked? = some (d.op, rank)
      ∧ p.tokens = d.left.tokens ++ u :: d.right.tokens := by
  obtain ⟨as, g, bs, op, rank, hat, rfl⟩ := exists_isDividedAt_of_lowest h
  rcases hat.group_cases with ⟨u, rfl, hu⟩ | ⟨b, hb⟩
  · obtain ⟨rank', hranked⟩ := ranked?_of_roleOf hu hat.role
    have hsplit : p.tokens = as.flatten ++ u :: bs.flatten := hat.tokens_eq
    refine ⟨u, rank', by rwa [divide_of_ranked hranked], ?_⟩
    rw [divide_of_ranked hranked, tokens_take_of_append hsplit, tokens_drop_of_cons hsplit]
    exact hsplit
  · exact absurd (suffixRank_le_of_roleOf hb hat.role) (Nat.not_le_of_lt (hat.rank_lt hp ht))

end Phrase

namespace Expr

/-- **A phrase that ends in an operator cannot be read.** -/
theorem not_read_of_operator_last {p : Phrase} {ts : List Token} {t : Token} {r : Operator × Rank}
    (hp : p.tokens = ts ++ [t]) (ht : t.ranked? = some r) (lookup : Lookup) (e : Expr) :
    read p lookup ≠ .ok e := by
  induction hn : p.size using Nat.strongRecOn generalizing p ts lookup e with
  | ind n ih =>
    subst hn
    intro h
    cases readBy_of_read h with
    | nothing hempty =>
      rw [Phrase.isEmpty, hp] at hempty
      simp at hempty
    | operand hq hnone =>
      obtain rfl := Phrase.unwrap_of_operator_last hp ht hq
      obtain ⟨d, hd⟩ := Phrase.exists_lowest_of_operator_last hp ht hnone
      cases hd
    | brackets hq hd hop =>
      obtain rfl := Phrase.unwrap_of_operator_last hp ht hq
      obtain ⟨u, rank, hranked, -⟩ := Phrase.exists_ranked_of_operator_last hp ht hd
      have hnotMem := op_notMem_of_ranked hranked
      simp only [List.mem_cons, List.not_mem_nil, or_false, not_or] at hnotMem hop
      tauto
    | @operator q d hq hd hsides =>
      obtain rfl := Phrase.unwrap_of_operator_last hp ht hq
      obtain ⟨u, rank, hranked, hsplit⟩ := Phrase.exists_ranked_of_operator_last hp ht hd
      -- what is right of the operator has been read, but ends in the same token
      obtain ⟨hne, hsize, lookup', e', hright⟩ := hsides.exists_right fun hslice =>
        op_notMem_of_ranked hranked (by rw [hslice]; decide)
      obtain ⟨bs, hbs⟩ : ∃ bs, d.right.tokens = bs ++ [t] := by
        rcases List.eq_nil_or_concat d.right.tokens with hnil | ⟨bs, v, hbs⟩
        · rw [Phrase.isEmpty, hnil] at hne
          cases hne
        · rw [List.concat_eq_append] at hbs
          rw [hp, hbs, ← List.cons_append, ← List.append_assoc] at hsplit
          exact ⟨bs, by rw [hbs, (List.append_inj' hsplit rfl).2]⟩
      exact ih d.right.size hsize hbs lookup' e' rfl hright

end Expr

/-! ## Uses of operators -/

namespace Phrase

/-- **What a phrase uses its operator as**: without the parentheses around all of it, `op` is the
operator that binds last, and whether an operand is complete before it is `afterOperand`. -/
def Uses (op : Operator) (afterOperand : Bool) (p : Phrase) : Prop :=
  ∃ q as g bs rank, p.unwrap = .ok q ∧ q.IsDividedAt as g bs op rank
    ∧ endsOperand (roleAfter none as) = afterOperand

variable {p : Phrase} {as bs : List (List Token)} {g : List Token} {op : Operator} {rank : Rank}

/-- A beginning of a row is told by the number of its tokens. -/
theorem eq_of_append_eq {as as' cs cs' : List (List Token)} (h : as ++ cs = as' ++ cs')
    (hne : ∀ g ∈ as ++ cs, g ≠ []) (hlength : as.flatten.length = as'.flatten.length) :
    as = as' := by
  induction as generalizing as' with
  | nil =>
    cases as' with
    | nil => rfl
    | cons a as' =>
      obtain rfl : cs = a :: (as' ++ cs') := h
      have hpos := List.length_pos_iff.mpr (hne a (by simp))
      rw [List.flatten_nil, List.length_nil, List.flatten_cons, List.length_append] at hlength
      omega
  | cons a as ih =>
    have hpos := List.length_pos_iff.mpr (hne a (by simp))
    cases as' with
    | nil =>
      rw [List.flatten_nil, List.length_nil, List.flatten_cons, List.length_append] at hlength
      omega
    | cons a' as' =>
      obtain ⟨rfl, htail⟩ := List.cons.inj h
      rw [List.flatten_cons, List.flatten_cons, List.length_append, List.length_append,
        Nat.add_left_cancel_iff] at hlength
      rw [ih htail (fun g hg => hne g (List.mem_cons_of_mem _ hg)) hlength]

/-- **A phrase uses one operator**, and in one way. -/
theorem Uses.unique {op' : Operator} {afterOperand afterOperand' : Bool}
    (h : p.Uses op afterOperand) (h' : p.Uses op' afterOperand') :
    op = op' ∧ afterOperand = afterOperand' := by
  obtain ⟨q, as, g, bs, rank, hq, hat, rfl⟩ := h
  obtain ⟨q', as', g', bs', rank', hq', hat', rfl⟩ := h'
  obtain rfl := Except.ok.inj (hq.symm.trans hq')
  have hgroups : as ++ g :: bs = as' ++ g' :: bs' :=
    Except.ok.inj (hat.groups.symm.trans hat'.groups)
  have hlowest := hat.lowest.symm.trans (hgroups ▸ hat'.lowest)
  simp only [Option.some.injEq, Candidate.mk.injEq] at hlowest
  obtain ⟨hplace, -, rfl, -⟩ := hlowest
  obtain rfl := eq_of_append_eq hgroups (flatten_groupsFrom hat.groups).2 hplace
  exact ⟨rfl, rfl⟩

/-- Left of the operator stands nothing if it is the first item. -/
theorem IsDividedAt.isEmpty_left (h : p.IsDividedAt as g bs op rank) :
    (p.take as.flatten.length).isEmpty = as.isEmpty := by
  rw [isEmpty, tokens_take_of_append h.tokens_eq]
  cases as with
  | nil => rfl
  | cons a as =>
    obtain ⟨t, ts, rfl⟩ := List.exists_cons_of_ne_nil ((flatten_groupsFrom h.groups).2 a (by simp))
    rfl

/-- **Where no operand is complete, the row so far is empty or ends in an operator.** -/
theorem IsDividedAt.exists_operator_last (h : p.IsDividedAt as g bs op rank) (hne : as ≠ [])
    (hends : endsOperand (roleAfter none as) = false) :
    ∃ ts t r, as.flatten = ts ++ [t] ∧ t.ranked? = some r := by
  rcases List.eq_nil_or_concat as with rfl | ⟨as, g', rfl⟩
  · exact absurd rfl hne
  rw [List.concat_eq_append] at h hends ⊢
  rw [roleAfter_append, roleAfter, List.foldl_cons, List.foldl_nil] at hends
  rcases groupsFrom_cases h.groups g' (by simp) with ⟨t, rfl, ht⟩ | ⟨b, hb⟩
  · cases hranked : t.ranked? with
    | none =>
      simp only [Role.of, ht, Role.ofToken, hranked] at hends
      cases hends
    | some r =>
      exact ⟨as.flatten, t, r, by rw [List.flatten_append, List.flatten_singleton], hranked⟩
  · rw [endsOperand_roleOf_isBracketed hb] at hends
    cases hends

end Phrase

namespace Expr

variable {p : Phrase} {lookup : Lookup} {op : Operator}

/-- **An operator without a left operand stands where no operand is complete.** -/
theorem uses_of_unary {x : Expr} (h : read p lookup = .ok (.unary op x)) : p.Uses op false := by
  obtain ⟨q, d, hq, hd, hsides⟩ := readOperator_of_read h (.unary _ _)
  cases hsides with
  | unary hleft _ _ _ he =>
    cases he
    obtain ⟨as, g, bs, op, rank, hat, rfl⟩ := Phrase.exists_isDividedAt_of_lowest hd
    obtain rfl : as = [] := List.isEmpty_iff.mp (hat.isEmpty_left.symm.trans hleft)
    exact ⟨q, [], g, bs, rank, hq, hat, rfl⟩
  | binary _ _ _ _ _ _ he | slice _ _ _ _ he => cases he

/-- **An operator with a left operand stands behind a complete operand.** -/
theorem uses_of_binary {l r : Expr} (h : read p lookup = .ok (.binary op l r)) :
    p.Uses op true := by
  obtain ⟨q, d, hq, hd, hsides⟩ := readOperator_of_read h (.binary _ _ _)
  obtain ⟨rfl, hleft, -, lookup', hread⟩ := hsides.exists_left
  obtain ⟨as, g, bs, op, rank, hat, rfl⟩ := Phrase.exists_isDividedAt_of_lowest hd
  refine ⟨q, as, g, bs, rank, hq, hat, ?_⟩
  by_contra hends
  rw [Bool.not_eq_true] at hends
  have hne : as ≠ [] := by
    rintro rfl
    cases hat.isEmpty_left.symm.trans hleft
  obtain ⟨ts, t, r, has, ht⟩ := hat.exists_operator_last hne hends
  have hlast : (q.take as.flatten.length).tokens = ts ++ [t] :=
    (Phrase.tokens_take_of_append hat.tokens_eq).trans has
  exact not_read_of_operator_last hlast ht lookup' _ hread

end Expr

end ScriptReader

import ScriptReader.Proofs.Expr.Rows
import ScriptReader.Proofs.Phrase.Joined

/-!
# Proofs/Expr/Divided — what a phrase consists of where it is divided

Whatever tokens a phrase has, nested or not: brackets that are found to belong together are an
opening and a closing one of the same kind (`isBracketed_of_partner?`), and where the phrase is
divided, its tokens are those of the division with what stands between them (`Phrase.Divides`).
-/

namespace ScriptReader

/-! ## Brackets that belong together -/

/-- The tokens are a pair of brackets and what stands between them. -/
def IsBracketed (b : Bracket) (ts : List Token) : Prop :=
  ∃ o c inner, ts = o :: (inner ++ [c]) ∧ o.text = b.openerText ∧ c.text = b.closerText

/-- The partner that is found has the partner's text. -/
theorem text_of_partner? {own other : String} {level k : Nat} {ts : List Token}
    (h : partner? own other level ts = some k) : ∃ c, ts[k]? = some c ∧ c.text = other := by
  fun_induction partner? own other level ts generalizing k with
  | case1 => cases h
  | case2 _ _ _ _ ih | case4 _ _ _ _ _ _ ih | case5 _ _ _ _ _ ih =>
    obtain ⟨j, hj, rfl⟩ := Option.map_eq_some_iff.mp h
    exact ih hj
  | case3 =>
    cases h
    exact ⟨_, rfl, by assumption⟩

theorem isBracketed_of_partner? {b : Bracket} {t : Token} {ts : List Token} {k : Nat}
    (ht : t.text = b.openerText)
    (h : partner? b.openerText b.closerText 0 (t :: ts) = some k) :
    IsBracketed b (t :: ts.take k) := by
  rw [partner?, if_pos ht] at h
  obtain ⟨j, hj, rfl⟩ := Option.map_eq_some_iff.mp h
  obtain ⟨c, hc, hctext⟩ := text_of_partner? hj
  refine ⟨t, c, ts.take j, ?_, ht, hctext⟩
  rw [List.take_add_one, hc]
  rfl

/-- An item outside brackets is one token, and any other one is bracketed. -/
theorem Phrase.groupsFrom_cases {p : Phrase} {pos : Nat} {ts : List Token}
    {groups : List (List Token)} (h : p.groupsFrom pos ts = .ok groups) :
    ∀ g ∈ groups, (∃ t, g = [t] ∧ Bracket.ofOpenerText? t.text = none)
      ∨ ∃ b, IsBracketed b g := by
  fun_induction groupsFrom p pos ts generalizing groups with
  | case1 =>
    cases h
    intro g hg
    cases hg
  | case2 pos t ts hb ih =>
    cases hr : groupsFrom p (pos + 1) ts with
    | error e => rw [hr] at h; cases h
    | ok rest =>
      rw [hr] at h
      cases h
      exact List.forall_mem_cons.mpr ⟨.inl ⟨t, rfl, hb⟩, ih hr⟩
  | case3 => cases h
  | case4 pos t ts b hb k hk ih =>
    cases hr : groupsFrom p (pos + k + 1) (ts.drop k) with
    | error e => rw [hr] at h; cases h
    | ok rest =>
      rw [hr] at h
      cases h
      have ht := Bracket.eq_openerText_of_ofOpenerText? hb
      exact List.forall_mem_cons.mpr ⟨.inr ⟨b, isBracketed_of_partner? ht hk⟩, ih hr⟩

/-- **What is enclosed is bracketed.** -/
theorem Phrase.isBracketed_of_isEnclosed {p : Phrase} {b : Bracket}
    (h : p.isEnclosed b = .ok true) : IsBracketed b p.tokens := by
  unfold isEnclosed at h
  split at h
  · next hstart =>
    cases hts : p.tokens with
    | nil =>
      rw [startsWith, hasText, hts] at hstart
      cases hstart
    | cons o ts =>
      have ho : o.text = b.openerText := by
        rw [startsWith, hasText, hts, beq_iff_eq] at hstart
        exact Option.some.inj hstart
      have hopener : Bracket.ofOpenerText? (p.textAt 0) = some b := by
        have htext : p.textAt 0 = b.openerText := by rw [textAt, hts, ← ho]; rfl
        rw [htext, Bracket.ofOpenerText?_openerText]
      cases hk : partner? b.openerText b.closerText 0 (p.tokens.drop 0) with
      | none =>
        rw [closerOf, hopener] at h
        simp only [hk] at h
        cases h
      | some k =>
        rw [closerOf, hopener] at h
        simp only [hk] at h
        have hlast : 0 + k = p.size - 1 := beq_iff_eq.mp (Except.ok.inj h)
        rw [size, hts, List.length_cons] at hlast
        rw [List.drop_zero, hts] at hk
        have hbracketed := isBracketed_of_partner? ho hk
        rwa [List.take_of_length_le (by omega)] at hbracketed
  · cases h

/-! ## Divisions -/

/-- An item has its place in the row. -/
theorem exists_append_of_mem_itemsFrom {place : Nat} {previous : Option Role}
    {groups : List (List Token)} {x : Item} (h : x ∈ itemsFrom place previous groups) :
    ∃ as bs, groups = as ++ x.tokens :: bs ∧ x.place = place + as.flatten.length
      ∧ x.role = Role.of (roleAfter previous as) x.tokens := by
  induction groups generalizing place previous with
  | nil => cases h
  | cons g groups ih =>
    rw [itemsFrom, List.mem_cons] at h
    rcases h with rfl | h
    · exact ⟨[], groups, rfl, rfl, rfl⟩
    · obtain ⟨as, bs, rfl, hplace, hrole⟩ := ih h
      refine ⟨g :: as, bs, rfl, ?_, hrole⟩
      rw [hplace, List.flatten_cons, List.length_append, Nat.add_assoc]

namespace Phrase

variable {p : Phrase} {d : Division}

/-- Of the items of the phrase, `g` is the operator that binds last, and has this rank. -/
structure IsDividedAt (p : Phrase) (as : List (List Token)) (g : List Token)
    (bs : List (List Token)) (op : Operator) (rank : Rank) : Prop where
  groups : p.groupsFrom 0 p.tokens = .ok (as ++ g :: bs)
  lowest : Candidate.lowest? (operatorsFrom 0 none (as ++ g :: bs))
    = some ⟨as.flatten.length, g.length, op, rank⟩
  role : Role.of (roleAfter none as) g = .operator op rank

/-- **A phrase is divided at that of its operators that binds last.** -/
theorem exists_isDividedAt_of_lowest (h : p.lowest = .ok (some d)) :
    ∃ as g bs op rank, p.IsDividedAt as g bs op rank
      ∧ d = p.divide ⟨as.flatten.length, g.length, op, rank⟩ := by
  rw [lowest, items] at h
  cases hg : p.groupsFrom 0 p.tokens with
  | error e => rw [hg] at h; cases h
  | ok groups =>
    rw [hg] at h
    obtain ⟨c, hc, rfl⟩ := Option.map_eq_some_iff.mp (Except.ok.inj h)
    obtain ⟨x, hx, hxc⟩ := List.mem_filterMap.mp (Candidate.mem_of_lowest? hc)
    obtain ⟨as, bs, rfl, hplace, hrole⟩ := exists_append_of_mem_itemsFrom hx
    rw [Nat.zero_add] at hplace
    unfold Item.candidate? at hxc
    split at hxc
    · next op rank hop =>
      cases hxc
      rw [hplace] at hc ⊢
      exact ⟨as, x.tokens, bs, op, rank, ⟨hg, hc, hrole.symm.trans hop⟩, rfl⟩
    · cases hxc

namespace IsDividedAt

variable {as bs : List (List Token)} {g : List Token} {op : Operator} {rank : Rank}

theorem tokens_eq (h : p.IsDividedAt as g bs op rank) :
    p.tokens = as.flatten ++ (g ++ bs.flatten) := by
  rw [← (flatten_groupsFrom h.groups).1, List.flatten_append, List.flatten_cons]

theorem group_cases (h : p.IsDividedAt as g bs op rank) :
    (∃ t, g = [t] ∧ Bracket.ofOpenerText? t.text = none) ∨ ∃ b, IsBracketed b g :=
  groupsFrom_cases h.groups g (by simp)

end IsDividedAt

/-- **What a phrase consists of where it is divided**: the parts and what stands between them.  An
index or a slice may have tokens `beyond` its brackets; arrays and dictionaries are not divided any
further. -/
inductive Divides (d : Division) (p : Phrase) : Prop
  | operator {t : Token} {rank : Rank} (ht : t.ranked? = some (d.op, rank))
      (h : p.tokens = d.left.tokens ++ t :: d.right.tokens)
  | suffix {o c : Token} {beyond : List Token} (hop : d.op = .index ∨ d.op = .slice)
      (ho : o.text = Bracket.square.openerText) (hc : c.text = Bracket.square.closerText)
      (h : p.tokens = d.left.tokens ++ o :: (d.right.tokens ++ c :: beyond))
  | call (hop : d.op = .call) (h : p.tokens = d.left.tokens ++ d.right.tokens)
  | container (hop : d.op = .array ∨ d.op = .dictionary)

/-- The operators that brackets are. -/
theorem roleOf_isBracketed {b : Bracket} {g : List Token} {before : Option Role} {op : Operator}
    {rank : Rank} (hg : IsBracketed b g) (h : Role.of before g = .operator op rank) :
    op = .call ∨ (b = .square ∧ (op = .index ∨ op = .slice)) ∨ op = .array ∨ op = .dictionary := by
  obtain ⟨o, c, inner, rfl, ho, -⟩ := hg
  have hopener : Bracket.ofOpenerText? o.text = some b := by
    rw [ho, Bracket.ofOpenerText?_openerText]
  simp only [Role.of, hopener] at h
  unfold Role.ofGroup at h
  repeat' split at h
  all_goals cases h
  · exact .inl rfl
  · exact .inr (.inl ⟨rfl, .inr rfl⟩)
  · exact .inr (.inl ⟨rfl, .inl rfl⟩)
  · exact .inr (.inr (.inl rfl))
  · exact .inr (.inr (.inr rfl))

/-- The operator that a token outside brackets is. -/
theorem ranked?_of_roleOf {t : Token} {before : Option Role} {op : Operator} {rank : Rank}
    (ht : Bracket.ofOpenerText? t.text = none) (h : Role.of before [t] = .operator op rank) :
    ∃ rank', t.ranked? = some (op, rank') := by
  simp only [Role.of, ht] at h
  unfold Role.ofToken at h
  split at h
  · cases h
  · next op' rank' hranked =>
    split at h
    · cases h
      exact ⟨_, hranked⟩
    · cases h
      exact ⟨_, hranked⟩

/-- **A phrase consists of the parts that it is divided into.** -/
theorem divides_of_lowest (h : p.lowest = .ok (some d)) : Divides d p := by
  obtain ⟨as, g, bs, op, rank, hat, rfl⟩ := exists_isDividedAt_of_lowest h
  have hp := hat.tokens_eq
  generalize as.flatten = as at hp ⊢
  generalize bs.flatten = bs at hp
  have hleft : (p.take as.length).tokens = as := tokens_take_of_append hp
  rcases hat.group_cases with ⟨t, rfl, ht⟩ | ⟨b, hg⟩
  · obtain ⟨rank', hranked⟩ := ranked?_of_roleOf ht hat.role
    have hright : (p.drop (as.length + 1)).tokens = bs := tokens_drop_of_cons hp
    rw [divide_of_ranked hranked]
    refine .operator hranked ?_
    rw [hleft, hright, hp]
    rfl
  · rcases roleOf_isBracketed hg hat.role with rfl | ⟨rfl, hop⟩ | hop
    · refine .call rfl ?_
      have hright : (p.drop as.length).tokens = g ++ bs := tokens_drop_of_append hp
      simp only [divide, reduceCtorEq, or_self, or_false, if_false, if_true]
      rw [hleft, hright, hp]
    · obtain ⟨o, c, inner, rfl, ho, hc⟩ := hg
      have hp' : p.tokens = as ++ o :: (inner ++ c :: bs) := by rw [hp]; simp
      have hright : (p.slice (as.length + 1) (as.length + inner.length + 1)).tokens = inner :=
        tokens_slice_of_bracketed hp'
      have hlast : as.length + (o :: (inner ++ [c])).length - 1 = as.length + inner.length + 1 := by
        simp only [List.length_cons, List.length_append, List.length_nil]
        omega
      let d := p.divide ⟨as.length, (o :: (inner ++ [c])).length, op, rank⟩
      have hd : p.tokens = d.left.tokens ++ o :: (d.right.tokens ++ c :: bs) := by
        simp only [d, divide, hop, if_true, hlast]
        rw [hleft, hright, hp']
      exact .suffix hop ho hc hd
    · exact .container hop

end Phrase

end ScriptReader

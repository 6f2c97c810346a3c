import ScriptReader.Expr.Lowest
import ScriptReader.Proofs.Phrase.Nesting

/-!
# Proofs/Expr/Rows — where a row of groups is divided

What a group means depends on whether an operand is complete before it.  `OperandRow k` is the
invariant that makes a row's meaning independent of what surrounds it: read where no operand is
complete, it completes one, and none of its operators binds later than level `k`.  The rows of
operands, operators and suffixes put together are such rows again (`OperandRow.between`,
`OperandRow.sign`, `OperandRow.suffix`), and each is divided at the operator that puts it together
(`lowest_between`, `lowest_sign`, `lowest_suffix`, `lowest_container`).
-/

namespace ScriptReader

/-! ## The lowest operator -/

namespace Candidate

theorem foldl_lower_eq {cs : List Candidate} {c : Candidate}
    (h : ∀ b ∈ cs, b.isLower c = false) : cs.foldl lower (some c) = some c := by
  induction cs with
  | nil => rfl
  | cons b cs ih =>
    rw [List.foldl_cons, lower, if_neg (by rw [h b List.mem_cons_self]; exact Bool.false_ne_true)]
    exact ih fun b hb => h b (List.mem_cons_of_mem _ hb)

/-- **An operator binds last** if it is lower than those before it, and none behind is lower. -/
theorem lowest?_eq {as bs : List Candidate} {c : Candidate} (ha : ∀ a ∈ as, c.isLower a = true)
    (hb : ∀ b ∈ bs, b.isLower c = false) : lowest? (as ++ c :: bs) = some c := by
  have hlower : lower (as.foldl lower none) c = some c := by
    cases hbest : as.foldl lower none with
    | none => rfl
    | some best =>
      rw [lower, if_pos (ha best (mem_of_lowest? hbest))]
  rw [lowest?, List.foldl_append, List.foldl_cons, hlower, foldl_lower_eq hb]

theorem isLower_of_lt {a c : Candidate} (h : c.rank.level < a.rank.level) :
    c.isLower a = true := by
  unfold isLower
  split
  · exact decide_eq_true (Nat.le_of_lt h)
  · exact decide_eq_true h

theorem isLower_of_le {a c : Candidate} (h : c.rank.level ≤ a.rank.level)
    (hdir : c.rank.direction = .leftToRight) : c.isLower a = true := by
  rw [isLower, hdir]
  exact decide_eq_true h

theorem not_isLower_of_lt {b c : Candidate} (h : c.rank.level < b.rank.level) :
    b.isLower c = false := by
  unfold isLower
  split
  · exact decide_eq_false (Nat.not_le_of_lt h)
  · exact decide_eq_false (Nat.lt_asymm h)

theorem not_isLower_of_le {b c : Candidate} (h : c.rank.level ≤ b.rank.level)
    (hsame : b.rank.level = c.rank.level → b.rank = c.rank)
    (hdir : c.rank.direction = .rightToLeft) : b.isLower c = false := by
  rcases Nat.lt_or_eq_of_le h with hlt | heq
  · exact not_isLower_of_lt hlt
  · rw [isLower, hsame heq.symm, hdir]
    exact decide_eq_false (Nat.lt_irrefl _)

end Candidate

/-! ## Roles along a row -/

/-- Is an operand complete after this role? -/
def endsOperand (previous : Option Role) : Bool := previous.any Role.completes

/-- The role of the last group of a row. -/
def roleAfter (previous : Option Role) (gs : List (List Token)) : Option Role :=
  gs.foldl (fun previous g => some (Role.of previous g)) previous

/-- The operators of a row, the tokens before which are counted by `place`. -/
def operatorsFrom (place : Nat) (previous : Option Role) (gs : List (List Token)) :
    List Candidate := (itemsFrom place previous gs).filterMap Item.candidate?

theorem roleAfter_append (previous : Option Role) (as bs : List (List Token)) :
    roleAfter previous (as ++ bs) = roleAfter (roleAfter previous as) bs := List.foldl_append

theorem itemsFrom_append (place : Nat) (previous : Option Role) (as bs : List (List Token)) :
    itemsFrom place previous (as ++ bs) = itemsFrom place previous as
      ++ itemsFrom (place + as.flatten.length) (roleAfter previous as) bs := by
  induction as generalizing place previous with
  | nil => rfl
  | cons g as ih =>
    rw [List.cons_append, itemsFrom, itemsFrom, ih, List.flatten_cons, List.length_append,
      Nat.add_assoc]
    rfl

theorem operatorsFrom_append (place : Nat) (previous : Option Role) (as bs : List (List Token)) :
    operatorsFrom place previous (as ++ bs) = operatorsFrom place previous as
      ++ operatorsFrom (place + as.flatten.length) (roleAfter previous as) bs := by
  rw [operatorsFrom, itemsFrom_append, List.filterMap_append]
  rfl

/-- A group that is no operator adds nothing. -/
theorem operatorsFrom_cons_operand {place : Nat} {previous : Option Role} {g : List Token}
    {gs : List (List Token)} (h : ∀ op rank, Role.of previous g ≠ .operator op rank) :
    operatorsFrom place previous (g :: gs)
      = operatorsFrom (place + g.length) (some (Role.of previous g)) gs := by
  rw [operatorsFrom, itemsFrom, List.filterMap_cons]
  cases hrole : Role.of previous g with
  | operand => rfl
  | parentheses => rfl
  | operator op rank => exact absurd hrole (h op rank)

theorem operatorsFrom_cons_operator {place : Nat} {previous : Option Role} {g : List Token}
    {gs : List (List Token)} {op : Operator} {rank : Rank}
    (h : Role.of previous g = .operator op rank) :
    operatorsFrom place previous (g :: gs) = ⟨place, g.length, op, rank⟩
      :: operatorsFrom (place + g.length) (some (.operator op rank)) gs := by
  rw [operatorsFrom, itemsFrom, List.filterMap_cons, h]
  rfl

/-- **A row is divided at its lowest operator.** -/
theorem Phrase.lowest_of_row {p : Phrase} {gs : List (List Token)} (hp : p.tokens = gs.flatten)
    (h : Row gs) :
    p.lowest = .ok ((Candidate.lowest? (operatorsFrom 0 none gs)).map p.divide) := by
  rw [lowest, items, hp, groupsFrom_flatten p 0 h]
  rfl

/-! ## The role of a group -/

section RoleOf

variable {previous : Option Role}

theorem roleOf_plain {t : Token} (ht : t.IsPlain) :
    Role.of previous [t] = Role.ofToken (endsOperand previous) t := by
  simp only [Role.of, ht.opener]
  rfl

theorem roleOf_bracketed {b : Bracket} {o : Token} {ts : List Token} (ho : o.text = b.openerText) :
    Role.of previous (o :: ts) = Role.ofGroup b (endsOperand previous) (o :: ts) := by
  simp only [Role.of, ho, Bracket.ofOpenerText?_openerText]
  rfl

/-- A word or a literal, wherever it stands. -/
theorem roleOf_operand {t : Token} (ht : t.IsPlain) (hr : t.ranked? = none) :
    Role.of previous [t] = .operand := by
  rw [roleOf_plain ht, Role.ofToken, hr]

/-- An operator behind an operand. -/
theorem roleOf_between {t : Token} {op : Operator} {rank : Rank} (ht : t.IsPlain)
    (hr : t.ranked? = some (op, rank)) (hprev : endsOperand previous = true) :
    Role.of previous [t] = .operator op rank := by
  rw [roleOf_plain ht, Role.ofToken, hr, hprev]
  exact if_neg (by simp)

end RoleOf

/-! ## Directions -/

theorem mem_ranking {t : Token} {op : Operator} {rank : Rank} (h : t.ranked? = some (op, rank)) :
    (op, rank) ∈ ranking ∧ t.text = op.symbol := by
  unfold Token.ranked? at h
  split at h
  · have hsymbol := List.find?_some h
    exact ⟨List.mem_of_find?_eq_some h, (beq_iff_eq.mp hsymbol).symm⟩
  · cases h

/-- The rank of the operators with a level: those with 0, 3 and 11 group from right to left. -/
def Rank.ofLevel (level : Nat) : Rank :=
  ⟨level, if level ∈ [0, 3, 11] then .rightToLeft else .leftToRight⟩

theorem Rank.direction_eq_iff {rank : Rank} (h : rank = .ofLevel rank.level) :
    rank.direction = .rightToLeft ↔ rank.level ∈ [0, 3, 11] := by
  rw [congrArg direction h, ofLevel]
  split
  · next hlevel => exact iff_of_true rfl hlevel
  · next hlevel => exact iff_of_false nofun hlevel

theorem rank_ofGroup {b : Bracket} {afterOperand : Bool} {g : List Token} {op : Operator}
    {rank : Rank} (h : Role.ofGroup b afterOperand g = .operator op rank) :
    rank = .ofLevel rank.level := by
  unfold Role.ofGroup at h
  repeat' split at h
  all_goals cases h
  all_goals rfl

theorem rank_ofToken {afterOperand : Bool} {t : Token} {op : Operator} {rank : Rank}
    (h : Role.ofToken afterOperand t = .operator op rank) : rank = .ofLevel rank.level := by
  have hranking : ∀ r ∈ ranking, r.2 = .ofLevel r.2.level
      ∧ (r.1 = .plus ∨ r.1 = .minus → r.2.boosted = .ofLevel r.2.boosted.level) := by decide
  unfold Role.ofToken at h
  split at h
  · cases h
  · next op' rank' hranked =>
    obtain ⟨htable, hboosted⟩ := hranking _ (mem_ranking hranked).1
    split at h
    · next hsign =>
      cases h
      exact hboosted hsign.1
    · cases h
      exact htable

/-- **Operators with the same level have the same direction**, brackets and signs as well as those
of the table. -/
theorem rank_eq_ofLevel {previous : Option Role} {g : List Token} {op : Operator} {rank : Rank}
    (h : Role.of previous g = .operator op rank) : rank = .ofLevel rank.level := by
  unfold Role.of at h
  split at h
  · cases h
  · split at h
    · exact rank_ofGroup h
    · exact rank_ofToken h

theorem rank_eq_ofLevel_of_mem {place : Nat} {previous : Option Role} {gs : List (List Token)}
    {c : Candidate} (h : c ∈ operatorsFrom place previous gs) : c.rank = .ofLevel c.rank.level := by
  induction gs generalizing place previous with
  | nil => cases h
  | cons g gs ih =>
    cases hrole : Role.of previous g with
    | operand | parentheses =>
      rw [operatorsFrom_cons_operand (by rw [hrole]; exact nofun)] at h
      exact ih h
    | operator op rank =>
      rw [operatorsFrom_cons_operator hrole] at h
      rcases List.mem_cons.mp h with rfl | h
      · exact rank_eq_ofLevel hrole
      · exact ih h

/-- Where operators group from right to left, none of a row is lower than one that is as loose. -/
theorem not_isLower_of_mem {place : Nat} {previous : Option Role} {gs : List (List Token)}
    {b c : Candidate} (hb : b ∈ operatorsFrom place previous gs)
    (hc : c.rank = .ofLevel c.rank.level) (h : c.rank.level ≤ b.rank.level)
    (hdir : c.rank.direction = .rightToLeft) : b.isLower c = false :=
  Candidate.not_isLower_of_le h (fun hsame => by rw [rank_eq_ofLevel_of_mem hb, hsame, ← hc]) hdir

/-! ## Rows that write operands -/

/-- What an expression of a rank does not show outside brackets. -/
def Foreign (k : Nat) (text : String) : Prop :=
  text ∈ [",", ":", "=", ":="] ∨ text = "in" ∧ 4 < k

/-- **A row that writes an operand**, the operators of which have at least level `k`. -/
structure OperandRow (k : Nat) (gs : List (List Token)) : Prop where
  row : Row gs
  ne_nil : gs ≠ []
  completes : ∀ previous, endsOperand previous = false → endsOperand (roleAfter previous gs) = true
  ranks : ∀ place previous, endsOperand previous = false →
    ∀ c ∈ operatorsFrom place previous gs, k ≤ c.rank.level
  free : ∀ text, Foreign k text → findOutside? text 0 gs.flatten = none

namespace OperandRow

variable {k : Nat} {gs : List (List Token)}

theorem nested (h : OperandRow k gs) : Nested gs.flatten := ⟨gs, h.row, rfl⟩

theorem hides (h : OperandRow k gs) {text : String} (ht : Foreign k text) :
    Hides text gs.flatten :=
  ⟨h.nested, h.free text ht⟩

theorem mono {k' : Nat} (h : OperandRow k gs) (hk : k' ≤ k) : OperandRow k' gs where
  row := h.row
  ne_nil := h.ne_nil
  completes := h.completes
  ranks place previous hprev c hc := Nat.le_trans hk (h.ranks place previous hprev c hc)
  free text ht := h.free text (ht.imp_right fun ht => ⟨ht.1, Nat.lt_of_lt_of_le ht.2 hk⟩)

/-- Brackets hide what is foreign. -/
theorem hides_bracketed {b : Bracket} {o c : Token} {ts : List Token} {text : String}
    (ho : o.text = b.openerText) (hc : c.text = b.closerText) (hts : Nested ts)
    (ht : Foreign k text) : Hides text (o :: (ts ++ [c])) := by
  refine .bracketed b ho hc hts ?_
  rintro rfl
  rcases ht with ht | ⟨ht, -⟩
  · cases b <;> exact absurd ht (by decide)
  · cases b <;> exact absurd ht (by decide)

/-- A single token. -/
theorem token {t : Token} (ht : t.IsPlain) (hr : t.ranked? = none)
    (hf : ∀ text, Foreign k text → t.text ≠ text) : OperandRow k [[t]] where
  row := .singleton (.token ht)
  ne_nil := List.cons_ne_nil _ _
  completes previous _ := by
    rw [roleAfter, List.foldl_cons, List.foldl_nil, roleOf_operand ht hr]
    rfl
  ranks place previous _ c hc := by
    have hrole : Role.of previous [t] = .operand := roleOf_operand ht hr
    rw [operatorsFrom_cons_operand (by rw [hrole]; exact nofun)] at hc
    cases hc
  free text h := by
    rw [List.flatten_singleton]
    exact (Hides.token ht (hf text h)).free

section Bracketed

variable {b : Bracket} {o c : Token} {ts : List Token} (ho : o.text = b.openerText)
  (hc : c.text = b.closerText) (hts : Nested ts)
include ho hc hts

/-- One bracketed group, with the role that it has where no operand is complete. -/
theorem bracketed {role : Role} (hrole : Role.ofGroup b false (o :: (ts ++ [c])) = role)
    (hcompletes : role.completes = true)
    (hrank : ∀ op rank, role = .operator op rank → k ≤ rank.level) :
    OperandRow k [o :: (ts ++ [c])] where
  row := .singleton (Nested.bracketed b ho hc hts)
  ne_nil := List.cons_ne_nil _ _
  completes previous hprev := by
    rw [roleAfter, List.foldl_cons, List.foldl_nil, roleOf_bracketed ho, hprev, hrole]
    exact hcompletes
  ranks place previous hprev x hx := by
    have hof : Role.of previous (o :: (ts ++ [c])) = role := by
      rw [roleOf_bracketed ho, hprev, hrole]
    cases role with
    | operator op rank =>
      rw [operatorsFrom_cons_operator hof] at hx
      obtain rfl := List.mem_singleton.mp hx
      exact hrank op rank rfl
    | operand | parentheses =>
      rw [operatorsFrom_cons_operand (by rw [hof]; exact nofun)] at hx
      cases hx
  free text h := by
    rw [List.flatten_singleton]
    exact (hides_bracketed ho hc hts h).free

end Bracketed

end OperandRow

/-! ## Operators between operands -/

/-- Behind an operator no operand is complete. -/
theorem not_endsOperand_of_ranked {t : Token} {op : Operator} {rank : Rank}
    (h : t.ranked? = some (op, rank)) : endsOperand (some (.operator op rank)) = false :=
  (by decide : ∀ r ∈ ranking, endsOperand (some (.operator r.1 r.2)) = false) _ (mem_ranking h).1

/-- A token is none of the operators that brackets are. -/
theorem op_notMem_of_ranked {t : Token} {op : Operator} {rank : Rank}
    (h : t.ranked? = some (op, rank)) :
    op ∉ [Operator.index, .slice, .call, .array, .dictionary, .parenthesis] :=
  (by decide : ∀ r ∈ ranking,
    r.1 ∉ [Operator.index, .slice, .call, .array, .dictionary, .parenthesis]) _ (mem_ranking h).1

/-- A token divides a phrase where it stands. -/
theorem Phrase.divide_of_ranked {p : Phrase} {t : Token} {op : Operator}
    {rank rank' : Rank} {place width : Nat} (h : t.ranked? = some (op, rank)) :
    p.divide ⟨place, width, op, rank'⟩ = ⟨op, p.take place, p.drop (place + 1)⟩ := by
  have hop := op_notMem_of_ranked h
  simp only [List.mem_cons, List.not_mem_nil, or_false, not_or] at hop
  simp only [divide, hop, or_self, if_false]

/-- An operator that is not looser than `k` is not foreign. -/
theorem not_foreign_of_ranked {t : Token} {op : Operator} {k : Nat} {rank : Rank} {text : String}
    (h : t.ranked? = some (op, rank)) (hk : k ≤ rank.level) (hf : Foreign k text) :
    t.text ≠ text := by
  obtain ⟨hmem, hsymbol⟩ := mem_ranking h
  rw [hsymbol]
  rintro rfl
  rcases hf with hf | ⟨hin, hlt⟩
  · exact (by decide : ∀ r ∈ ranking, r.1.symbol ∉ [",", ":", "=", ":="]) _ hmem hf
  · have : rank.level = 4 :=
      (by decide : ∀ r ∈ ranking, r.1.symbol = "in" → r.2.level = 4) _ hmem hin
    omega

section Infix

variable {as bs : List (List Token)} {t : Token} {op : Operator} {k ka kb : Nat}
  {rank : Rank} (ha : OperandRow ka as) (hb : OperandRow kb bs) (ht : t.IsPlain)
  (hr : t.ranked? = some (op, rank))
include ha ht hr

theorem operatorsFrom_between {place : Nat} {previous : Option Role}
    (hprev : endsOperand previous = false) :
    operatorsFrom place previous (as ++ [t] :: bs) = operatorsFrom place previous as
      ++ ⟨place + as.flatten.length, 1, op, rank⟩
        :: operatorsFrom (place + as.flatten.length + 1) (some (.operator op rank)) bs := by
  have hrole : Role.of (roleAfter previous as) [t] = .operator op rank :=
    roleOf_between ht hr (ha.completes previous hprev)
  rw [operatorsFrom_append, operatorsFrom_cons_operator hrole]
  rfl

include hb

/-- **Two operands and an operator between them.** -/
theorem OperandRow.between (hka : k ≤ ka) (hkb : k ≤ kb) (hk : k ≤ rank.level) :
    OperandRow k (as ++ [t] :: bs) where
  row := ha.row.append (Row.append (.singleton (.token ht)) hb.row)
  ne_nil := by simp
  completes previous hprev := by
    rw [roleAfter_append, roleAfter, List.foldl_cons,
      roleOf_between ht hr (ha.completes previous hprev)]
    exact hb.completes _ (not_endsOperand_of_ranked hr)
  ranks place previous hprev c hc := by
    rw [operatorsFrom_between ha ht hr hprev, List.mem_append, List.mem_cons] at hc
    rcases hc with hc | rfl | hc
    · exact Nat.le_trans hka (ha.ranks _ _ hprev c hc)
    · exact hk
    · exact Nat.le_trans hkb (hb.ranks _ _ (not_endsOperand_of_ranked hr) c hc)
  free text hf := by
    rw [List.flatten_append, List.flatten_cons]
    exact (((ha.mono hka).hides hf).append
      (((hb.mono hkb).hides hf).cons ht (not_foreign_of_ranked hr hk hf))).free

/-- **It is divided at the operator**, if nothing left of it binds later, nor what is right of it:
where operators group from right to left the left operand has to bind earlier, else the right
one. -/
theorem lowest_between {p : Phrase} (hp : p.tokens = as.flatten ++ t :: bs.flatten)
    (hdir : if rank.direction = .rightToLeft then rank.level < ka ∧ rank.level ≤ kb
      else rank.level ≤ ka ∧ rank.level < kb) :
    p.lowest = .ok (some
      ⟨op, p.take as.flatten.length, p.drop (as.flatten.length + 1)⟩) := by
  have hrow := (OperandRow.between ha hb ht hr (Nat.zero_le _) (Nat.zero_le _) (Nat.zero_le _)).row
  have hflat : p.tokens = (as ++ [t] :: bs).flatten := by
    rw [hp, List.flatten_append, List.flatten_cons]
    rfl
  rw [Phrase.lowest_of_row hflat hrow, operatorsFrom_between ha ht hr rfl,
    Candidate.lowest?_eq, Option.map_some, Phrase.divide_of_ranked hr, Nat.zero_add]
  · intro a hmem
    have hle := ha.ranks _ _ rfl a hmem
    split at hdir
    · exact Candidate.isLower_of_lt (Nat.lt_of_lt_of_le hdir.1 hle)
    · next hltr =>
      refine Candidate.isLower_of_le (Nat.le_trans hdir.1 hle) ?_
      cases hdir : rank.direction with
      | leftToRight => rfl
      | rightToLeft => exact absurd hdir hltr
  · intro b hmem
    have hle := hb.ranks _ _ (not_endsOperand_of_ranked hr) b hmem
    split at hdir
    · next hrtl =>
      have hrank := rank_eq_ofLevel (roleOf_between ht hr (ha.completes none rfl))
      exact not_isLower_of_mem hmem hrank (Nat.le_trans hdir.2 hle) hrtl
    · exact Candidate.not_isLower_of_lt (Nat.lt_of_lt_of_le hdir.2 hle)

end Infix

/-! ## Operators before an operand -/

section Prefix

variable {bs : List (List Token)} {t : Token} {op : Operator} {k kb : Nat}
  {rank : Rank} (hb : OperandRow kb bs) (ht : t.IsPlain)
  (hrole : Role.ofToken false t = .operator op rank)
  (hop : endsOperand (some (.operator op rank)) = false)
include ht hrole

theorem operatorsFrom_sign {place : Nat} {previous : Option Role}
    (hprev : endsOperand previous = false) :
    operatorsFrom place previous ([t] :: bs)
      = ⟨place, 1, op, rank⟩ :: operatorsFrom (place + 1) (some (.operator op rank)) bs :=
  operatorsFrom_cons_operator (by rw [roleOf_plain ht, hprev, hrole])

include hb hop

/-- **An operator and an operand behind it.** -/
theorem OperandRow.sign (hkb : k ≤ kb) (hk : k ≤ rank.level)
    (hf : ∀ text, Foreign k text → t.text ≠ text) : OperandRow k ([t] :: bs) where
  row := Row.append (.singleton (.token ht)) hb.row
  ne_nil := List.cons_ne_nil _ _
  completes previous hprev := by
    rw [roleAfter, List.foldl_cons, roleOf_plain ht, hprev, hrole]
    exact hb.completes _ hop
  ranks place previous hprev c hc := by
    rw [operatorsFrom_sign ht hrole hprev, List.mem_cons] at hc
    rcases hc with rfl | hc
    · exact hk
    · exact Nat.le_trans hkb (hb.ranks _ _ hop c hc)
  free text h := by
    rw [List.flatten_cons]
    exact (((hb.mono hkb).hides h).cons ht (hf text h)).free

/-- It is divided at the operator, if the operand does not bind later. -/
theorem lowest_sign {p : Phrase} (hp : p.tokens = t :: bs.flatten) (hdir : rank.level ≤ kb)
    (hrtl : rank.direction = .rightToLeft)
    (hplace : ¬(op = .index ∨ op = .slice) ∧ ¬(op = .call ∨ op = .array ∨ op = .dictionary)) :
    p.lowest = .ok (some ⟨op, p.take 0, p.drop 1⟩) := by
  have hrow : Row ([t] :: bs) := Row.append (.singleton (.token ht)) hb.row
  have hflat : p.tokens = ([t] :: bs).flatten := hp
  have hnone : ∀ a ∈ ([] : List Candidate), (⟨0, 1, op, rank⟩ : Candidate).isLower a = true :=
    nofun
  rw [Phrase.lowest_of_row hflat hrow, operatorsFrom_sign ht hrole rfl]
  have hlowest := Candidate.lowest?_eq hnone
    fun b (hmem : b ∈ operatorsFrom (0 + 1) (some (.operator op rank)) bs) =>
      not_isLower_of_mem hmem (rank_ofToken hrole)
        (Nat.le_trans hdir (hb.ranks _ _ hop b hmem)) hrtl
  rw [List.nil_append] at hlowest
  rw [hlowest, Option.map_some, Phrase.divide, if_neg hplace.1, if_neg hplace.2]

end Prefix

/-! ## Brackets behind an operand -/

section Suffix

variable {as : List (List Token)} {b : Bracket} {o c : Token} {ts : List Token} {op : Operator}
  {k : Nat} (ha : OperandRow suffixRank.level as) (ho : o.text = b.openerText)
  (hc : c.text = b.closerText) (hts : Nested ts)
  (hrole : Role.ofGroup b true (o :: (ts ++ [c])) = .operator op suffixRank)
include ha ho hrole

theorem operatorsFrom_suffix {place : Nat} {previous : Option Role}
    (hprev : endsOperand previous = false) :
    operatorsFrom place previous (as ++ [o :: (ts ++ [c])]) = operatorsFrom place previous as
      ++ [⟨place + as.flatten.length, ts.length + 2, op, suffixRank⟩] := by
  have hof : Role.of (roleAfter previous as) (o :: (ts ++ [c])) = .operator op suffixRank := by
    rw [roleOf_bracketed ho, ha.completes previous hprev, hrole]
  rw [operatorsFrom_append, operatorsFrom_cons_operator hof]
  simp only [List.length_cons, List.length_append, List.length_nil]
  rfl

include hc hts

/-- **An operand and brackets behind it.** -/
theorem OperandRow.suffix (hop : (Role.operator op suffixRank).completes = true)
    (hk : k ≤ suffixRank.level) : OperandRow k (as ++ [o :: (ts ++ [c])]) where
  row := ha.row.append (.singleton (Nested.bracketed b ho hc hts))
  ne_nil := by simp
  completes previous hprev := by
    rw [roleAfter_append, roleAfter, List.foldl_cons, List.foldl_nil, roleOf_bracketed ho,
      ha.completes previous hprev, hrole]
    exact hop
  ranks place previous hprev x hx := by
    rw [operatorsFrom_suffix ha ho hrole hprev, List.mem_append, List.mem_singleton] at hx
    rcases hx with hx | rfl
    · exact Nat.le_trans hk (ha.ranks _ _ hprev x hx)
    · exact hk
  free text hf := by
    rw [List.flatten_append, List.flatten_singleton]
    exact (((ha.mono hk).hides hf).append (OperandRow.hides_bracketed ho hc hts hf)).free

/-- It is divided at the brackets. -/
theorem lowest_suffix {p : Phrase} (hp : p.tokens = as.flatten ++ o :: (ts ++ [c])) :
    p.lowest = .ok (some (p.divide ⟨as.flatten.length, ts.length + 2, op, suffixRank⟩)) := by
  have hrow : Row (as ++ [o :: (ts ++ [c])]) :=
    ha.row.append (.singleton (Nested.bracketed b ho hc hts))
  have hflat : p.tokens = (as ++ [o :: (ts ++ [c])]).flatten := by
    rw [hp, List.flatten_append, List.flatten_singleton]
  rw [Phrase.lowest_of_row hflat hrow, operatorsFrom_suffix ha ho hrole rfl, Candidate.lowest?_eq,
    Option.map_some, Nat.zero_add]
  · exact fun x hx => Candidate.isLower_of_le (ha.ranks _ _ rfl x hx) rfl
  · exact nofun

end Suffix

/-- **Brackets that are an operand** are divided at the whole phrase. -/
theorem lowest_container {p : Phrase} {b : Bracket} {o c : Token} {ts : List Token}
    {op : Operator} (hp : p.tokens = o :: (ts ++ [c])) (ho : o.text = b.openerText)
    (hc : c.text = b.closerText) (hts : Nested ts)
    (hrole : Role.ofGroup b false (o :: (ts ++ [c])) = .operator op containerRank) :
    p.lowest = .ok (some (p.divide ⟨0, ts.length + 2, op, containerRank⟩)) := by
  have hof : Role.of none (o :: (ts ++ [c])) = .operator op containerRank := by
    rw [roleOf_bracketed ho]
    exact hrole
  have hflat : p.tokens = [o :: (ts ++ [c])].flatten := by rw [hp, List.flatten_singleton]
  rw [Phrase.lowest_of_row hflat (.singleton (Nested.bracketed b ho hc hts)),
    operatorsFrom_cons_operator hof]
  simp only [List.length_cons, List.length_append, List.length_nil]
  rfl

/-- A phrase of one word or literal is not divided. -/
theorem lowest_token {p : Phrase} {t : Token} (hp : p.tokens = [t]) (ht : t.IsPlain)
    (hr : t.ranked? = none) : p.lowest = .ok none := by
  have hof : Role.of none [t] = .operand := roleOf_operand ht hr
  have hflat : p.tokens = [[t]].flatten := hp
  rw [Phrase.lowest_of_row hflat (.singleton (.token ht)),
    operatorsFrom_cons_operand (by rw [hof]; exact nofun)]
  rfl

end ScriptReader

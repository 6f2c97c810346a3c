import Mathlib.Data.List.Induction
import ScriptReader.Proofs.Expr.Sides
import ScriptReader.Proofs.Expr.Operands
import ScriptReader.Proofs.Phrase.Formed

/-!
# Proofs/Expr/BindsLast — the operator that binds last, told from the items alone

Nested tokens are one row of items, and what an item is can be told from its own tokens and from
whether an operand is complete before it (`Means`).  So a phrase of nested tokens is classified in
one way only (`Phrase.Classified`), and where it is divided is a matter of the ranks of its
operators: at the lowest one, the last of several, or the first where operators group from right to
left (`BindsLast`).  `Phrase.lowest_binds_last` says that dividing finds just this operator, and
what stands on either side of it.
-/

namespace ScriptReader

open ScriptReader.Bracket

/-! ## What an item is -/

/-- The token is this operator of the table of ranks. -/
structure Token.IsOperator (op : Operator) (t : Token) : Prop where
  kind : t.kind = .operator ∨ t.kind = .keyword
  text : t.text = op.symbol
  level : op.level < Operator.call.level

/-- The group is a pair of brackets with these tokens between them. -/
def IsPair (b : Bracket) (inner g : List Token) : Prop :=
  ∃ o c, g = o :: (inner ++ [c]) ∧ o.text = b.openerText ∧ c.text = b.closerText

/-- One of the items that the tokens consist of is a token with the given text. -/
def ShowsItem (text : String) (ts : List Token) : Prop :=
  ∃ gs t, Row gs ∧ gs.flatten = ts ∧ [t] ∈ gs ∧ t.text = text

/-- **What an item is**, told from its tokens and from whether an operand is complete before it. -/
inductive Means (afterOperand : Bool) (g : List Token) : Role → Prop
  | call {inner : List Token} (hg : IsPair .round inner g) (h : afterOperand = true) :
      Means afterOperand g (.operator .call (.ofLevel Operator.call.level))
  | parentheses {inner : List Token} (hg : IsPair .round inner g) (h : afterOperand = false) :
      Means afterOperand g .parentheses
  | slice {inner : List Token} (hg : IsPair .square inner g) (h : afterOperand = true)
      (hcolon : ShowsItem ":" inner) :
      Means afterOperand g (.operator .slice (.ofLevel Operator.slice.level))
  | index {inner : List Token} (hg : IsPair .square inner g) (h : afterOperand = true)
      (hcolon : ¬ShowsItem ":" inner) :
      Means afterOperand g (.operator .index (.ofLevel Operator.index.level))
  | array {inner : List Token} (hg : IsPair .square inner g) (h : afterOperand = false) :
      Means afterOperand g (.operator .array (.ofLevel Operator.array.level))
  | dictionary {inner : List Token} (hg : IsPair .curly inner g) :
      Means afterOperand g (.operator .dictionary (.ofLevel Operator.dictionary.level))
  /-- A plus or a minus without a left operand binds tighter. -/
  | sign {t : Token} {op : Operator} (hg : g = [t]) (ht : t.IsOperator op)
      (hop : op = .plus ∨ op = .minus) (h : afterOperand = false) :
      Means afterOperand g (.operator op (.ofLevel op.prefixLevel))
  | operator {t : Token} {op : Operator} (hg : g = [t]) (ht : t.IsOperator op)
      (h : op = .plus ∨ op = .minus → afterOperand = true) :
      Means afterOperand g (.operator op (.ofLevel op.level))
  | operand {t : Token} (hg : g = [t]) (ht : ∀ op, ¬t.IsOperator op) :
      Means afterOperand g .operand

/-- **The roles of the items of a row**: each is told with regard to the one before it. -/
inductive Roles : Bool → List (List Token) → List Role → Prop
  | nil (afterOperand : Bool) : Roles afterOperand [] []
  | cons {afterOperand : Bool} {g : List Token} {gs : List (List Token)} {r : Role}
      {rs : List Role} (hg : Means afterOperand g r) (hgs : Roles r.completes gs rs) :
      Roles afterOperand (g :: gs) (r :: rs)

/-- **The phrase consists of these items, with these roles**; no operand is complete before the
first one. -/
structure Phrase.Classified (p : Phrase) (gs : List (List Token)) (rs : List Role) : Prop where
  row : Row gs
  flatten : gs.flatten = p.tokens
  roles : Roles false gs rs

/-! ## Where a phrase is divided -/

/-- **The operator that binds last** among items with these roles stands at this position: none has
a lower level, and of those with the same level it is the first one if the level is 0, 3 or 11, and
else the last one. -/
structure BindsLast (rs : List Role) (i : Nat) (op : Operator) (rank : Rank) : Prop where
  here : rs[i]? = some (Role.operator op rank)
  least : ∀ (j : Nat) op' rank', rs[j]? = some (Role.operator op' rank') → rank.level ≤ rank'.level
  first : rank.level ∈ [0, 3, 11] → ∀ (j : Nat) op' rank',
    rs[j]? = some (Role.operator op' rank') → rank'.level = rank.level → i ≤ j
  last : rank.level ∉ [0, 3, 11] → ∀ (j : Nat) op' rank',
    rs[j]? = some (Role.operator op' rank') → rank'.level = rank.level → j ≤ i

namespace Phrase

/-- The phrase is the stretch of another one that begins at the position and has these tokens. -/
def IsStretch (p : Phrase) (pos : Nat) (ts : List Token) (q : Phrase) : Prop :=
  q = p.slice pos (pos + ts.length) ∧ q.tokens = ts

/-- **The phrase is divided at one of its items.**  On its left is all that is before it; on its
right is what an index or a slice has between its brackets, all from the brackets of a call, an
array or a dictionary on, and what is behind any other operator. -/
structure IsDivision (p : Phrase) (gs : List (List Token)) (i : Nat) (d : Division) : Prop where
  left : p.IsStretch 0 (gs.take i).flatten d.left
  interior : d.op ∈ [Operator.index, .slice] → ∃ inner, (∃ g ∈ gs[i]?, IsPair .square inner g)
    ∧ p.IsStretch ((gs.take i).flatten.length + 1) inner d.right
  onward : d.op ∈ [Operator.call, .array, .dictionary] →
    p.IsStretch (gs.take i).flatten.length (gs.drop i).flatten d.right
  behind : d.op ∉ [Operator.index, .slice, .call, .array, .dictionary] →
    p.IsStretch ((gs.take i).flatten.length + 1) (gs.drop (i + 1)).flatten d.right

end Phrase

/-! ## Roles are told in one way -/

theorem Token.IsOperator.op_notMem {t : Token} {op : Operator} (h : t.IsOperator op) :
    op ∉ [Operator.index, .slice, .call, .array, .dictionary] :=
  (by decide : ∀ op ∈ Operator.all, op.level < Operator.call.level →
    op ∉ [Operator.index, .slice, .call, .array, .dictionary]) op (Operator.mem_all op) h.level

theorem Group.nested_of_isPair {b : Bracket} {inner g : List Token} (hg : Group g)
    (h : IsPair b inner g) : Nested inner := by
  obtain ⟨o, c, hpair, -, -⟩ := h
  cases hg with
  | token => simp at hpair
  | @bracketed b' o' c' gs ho' hc' hgs =>
    obtain ⟨-, hinner⟩ := List.cons.inj hpair
    exact (List.append_inj' hinner rfl).1 ▸ Row.nested hgs

/-- An item of one token is no bracket. -/
theorem Group.isPlain {t : Token} (h : Group [t]) : t.IsPlain := by
  generalize hg : [t] = g at h
  cases h with
  | token ht =>
    cases hg
    exact ht
  | bracketed => simp at hg

theorem Token.IsOperator.ranked? {t : Token} {op : Operator} (h : t.IsOperator op) :
    t.ranked? = some (op, .ofLevel op.level) := by
  rw [Token.ranked?, if_pos h.kind, h.text]
  exact find?_ranking op (Operator.mem_all op) h.level

theorem isOperator_of_ranked? {t : Token} {op : Operator} {rank : Rank}
    (h : t.ranked? = some (op, rank)) : t.IsOperator op ∧ rank = .ofLevel op.level := by
  obtain ⟨hmem, htext⟩ := mem_ranking h
  obtain ⟨hlevel, hrank⟩ := (by decide : ∀ r ∈ ranking,
    r.1.level < Operator.call.level ∧ r.2 = .ofLevel r.1.level) _ hmem
  refine ⟨⟨?_, htext, hlevel⟩, hrank⟩
  by_contra hkind
  rw [Token.ranked?, if_neg hkind] at h
  cases h

/-- **A token is among the items of a row just if it stands outside all brackets.** -/
theorem Row.isSome_findOutside?_iff {gs : List (List Token)} (h : Row gs) {text : String}
    (htext : ofOpenerText? text = none) :
    (findOutside? text 0 gs.flatten).isSome ↔ ∃ t, [t] ∈ gs ∧ t.text = text := by
  constructor
  · intro hsome
    obtain ⟨k, hk⟩ := Option.isSome_iff_exists.mp hsome
    obtain ⟨as, g, bs, t, ts, rfl, -, rfl, rfl⟩ := h.exists_of_findOutside? hk
    have hg : Group (t :: ts) := h _ (by simp)
    cases hg with
    | token ht => exact ⟨t, by simp, rfl⟩
    | @bracketed b _ _ _ ho => simp [ho] at htext
  · rintro ⟨t, ht, rfl⟩
    obtain ⟨as, bs, rfl⟩ := List.append_of_mem ht
    rw [List.flatten_append, List.flatten_cons, h.left.nested.findOutside?_append, Option.isSome_or,
      List.singleton_append, findOutside?, if_pos ⟨rfl, rfl⟩]
    simp

/-- **Tokens are a row in one way only.** -/
theorem Row.eq_of_flatten_eq {gs gs' : List (List Token)} (h : Row gs) (h' : Row gs')
    (hflat : gs.flatten = gs'.flatten) : gs = gs' := by
  have hgroups := groupsFrom_flatten (Phrase.whole []) 0 h
  rw [hflat, groupsFrom_flatten _ 0 h'] at hgroups
  exact (Except.ok.inj hgroups).symm

theorem isSome_findOutside?_iff_showsItem {ts : List Token} (h : Nested ts) :
    (findOutside? ":" 0 ts).isSome ↔ ShowsItem ":" ts := by
  obtain ⟨gs, hgs, rfl⟩ := h
  have hcolon : ofOpenerText? ":" = none := by decide
  refine (hgs.isSome_findOutside?_iff hcolon).trans ?_
  refine ⟨fun ⟨t, ht, htext⟩ => ⟨gs, t, hgs, rfl, ht, htext⟩, ?_⟩
  rintro ⟨gs', t, hgs', hflat, ht, htext⟩
  obtain rfl := hgs.eq_of_flatten_eq hgs' hflat.symm
  exact ⟨t, ht, htext⟩

/-- The role that reading gives a token is what the token is. -/
theorem means_ofToken {t : Token} (afterOperand : Bool) :
    Means afterOperand [t] (Role.ofToken afterOperand t) := by
  rw [Role.ofToken]
  cases hranked : t.ranked? with
  | none =>
    refine .operand rfl fun op hop => ?_
    rw [hop.ranked?] at hranked
    cases hranked
  | some ranked =>
    obtain ⟨op, rank⟩ := ranked
    obtain ⟨hop, rfl⟩ := isOperator_of_ranked? hranked
    dsimp only
    split
    · next hsign =>
      obtain ⟨hsign, hends⟩ := hsign
      have hlevel : .ofLevel op.prefixLevel = (Rank.ofLevel op.level).boosted := by
        rcases hsign with rfl | rfl <;> rfl
      exact hlevel ▸ .sign rfl hop hsign (by simpa using hends)
    · next hsign => exact .operator rfl hop fun h => by simpa [h] using hsign

/-- The role that reading gives a bracket group is what the group is. -/
theorem means_ofGroup {b : Bracket} {o c : Token} {inner : List Token}
    (ho : o.text = b.openerText) (hc : c.text = b.closerText) (hinner : Nested inner)
    (afterOperand : Bool) :
    Means afterOperand (o :: (inner ++ [c]))
      (Role.ofGroup b afterOperand (o :: (inner ++ [c]))) := by
  have hpair : IsPair b inner (o :: (inner ++ [c])) := ⟨o, c, rfl, ho, hc⟩
  have hcolon := isSome_findOutside?_iff_showsItem hinner
  cases afterOperand <;> cases b
  · exact .parentheses hpair rfl
  · exact .array hpair rfl
  · exact .dictionary hpair
  · exact .call hpair rfl
  · cases hfind : findOutside? ":" 0 inner with
    | none =>
      rw [ofGroup_index hfind]
      rw [hfind] at hcolon
      exact .index hpair rfl (mt hcolon.mpr Bool.false_ne_true)
    | some k =>
      rw [ofGroup_slice (by rw [hfind]; rfl)]
      exact .slice hpair rfl (hcolon.mp (by rw [hfind]; rfl))
  · exact .dictionary hpair

/-- The role that reading gives an item is what the item is. -/
theorem means_roleOf {g : List Token} (hg : Group g) (previous : Option Role) :
    Means (endsOperand previous) g (Role.of previous g) := by
  cases hg with
  | token ht =>
    rw [roleOf_plain ht]
    exact means_ofToken _
  | bracketed b ho hc hgs =>
    rw [roleOf_bracketed ho]
    exact means_ofGroup ho hc (Row.nested hgs) _

/-- What an item is, reading gives it for its role. -/
theorem Means.eq_roleOf {g : List Token} {previous : Option Role} {r : Role}
    (h : Means (endsOperand previous) g r) (hg : Group g) : r = Role.of previous g := by
  have hround {b : Bracket} {inner : List Token} (hpair : IsPair b inner g) :
      Role.of previous g = Role.ofGroup b (endsOperand previous) g := by
    obtain ⟨o, c, rfl, ho, -⟩ := hpair
    exact roleOf_bracketed ho
  cases h with
  | call hpair hends | parentheses hpair hends | array hpair hends =>
    rw [hround hpair, hends]
    rfl
  | dictionary hpair =>
    rw [hround hpair]
    rfl
  | slice hpair hends hcolon =>
    have hsome := (isSome_findOutside?_iff_showsItem (hg.nested_of_isPair hpair)).mpr hcolon
    rw [hround hpair, hends]
    obtain ⟨o, c, rfl, -, -⟩ := hpair
    rw [ofGroup_slice hsome]
    rfl
  | index hpair hends hcolon =>
    have hnone := mt (isSome_findOutside?_iff_showsItem (hg.nested_of_isPair hpair)).mp hcolon
    rw [hround hpair, hends]
    obtain ⟨o, c, rfl, -, -⟩ := hpair
    rw [ofGroup_index (Option.not_isSome_iff_eq_none.mp hnone)]
    rfl
  | @sign t op hone ht hop hends =>
    subst hone
    rw [roleOf_plain (isPlain_of_ranked ht.ranked?), Role.ofToken, ht.ranked?, hends]
    rcases hop with rfl | rfl <;> rfl
  | @operator t op hone ht hends =>
    subst hone
    rw [roleOf_plain (isPlain_of_ranked ht.ranked?), Role.ofToken, ht.ranked?]
    refine (if_neg ?_).symm
    rintro ⟨hsign, hnot⟩
    rw [hends hsign] at hnot
    cases hnot
  | @operand t hone ht =>
    subst hone
    rw [roleOf_plain hg.isPlain, Role.ofToken]
    cases hranked : t.ranked? with
    | none => rfl
    | some ranked => exact absurd (isOperator_of_ranked? hranked).1 (ht _)

/-! ## Roles along a row -/

theorem getElem?_itemsFrom (place : Nat) (previous : Option Role) (gs : List (List Token))
    (i : Nat) :
    (itemsFrom place previous gs)[i]? = gs[i]?.map fun g =>
      ⟨place + (gs.take i).flatten.length, g, Role.of (roleAfter previous (gs.take i)) g⟩ := by
  induction gs generalizing place previous i with
  | nil => rfl
  | cons g gs ih =>
    cases i with
    | zero => rfl
    | succ i =>
      rw [itemsFrom, List.getElem?_cons_succ, List.getElem?_cons_succ, ih, List.take_succ_cons,
        List.flatten_cons, List.length_append, Nat.add_assoc]
      rfl

/-- The items of a row have roles. -/
theorem roles_itemsFrom {gs : List (List Token)} (h : Row gs) (place : Nat)
    (previous : Option Role) :
    Roles (endsOperand previous) gs ((itemsFrom place previous gs).map Item.role) := by
  induction gs generalizing place previous with
  | nil => exact .nil _
  | cons g gs ih =>
    have ⟨hg, hgs⟩ := List.forall_mem_cons.mp h
    have hrest := ih hgs (place + g.length) (some (Role.of previous g))
    exact .cons (means_roleOf hg previous) hrest

/-- **The items of a row have no other roles.** -/
theorem Roles.eq_itemsFrom {gs : List (List Token)} {rs : List Role} {previous : Option Role}
    (hrs : Roles (endsOperand previous) gs rs) (h : Row gs) (place : Nat) :
    rs = (itemsFrom place previous gs).map Item.role := by
  induction gs generalizing place previous rs with
  | nil =>
    cases hrs
    rfl
  | cons g gs ih =>
    have ⟨hg, hgs⟩ := List.forall_mem_cons.mp h
    cases hrs with
    | cons hmeans hrest =>
      obtain rfl := hmeans.eq_roleOf hg
      have hrest : Roles (endsOperand (some (Role.of previous g))) gs _ := hrest
      exact congrArg (Role.of previous g :: ·) (ih hrest hgs _)

namespace Phrase

variable {p : Phrase} {gs gs' : List (List Token)} {rs rs' : List Role}

theorem classified_of_row (h : Row gs) (hflat : gs.flatten = p.tokens) :
    p.Classified gs ((itemsFrom 0 none gs).map Item.role) :=
  ⟨h, hflat, roles_itemsFrom h 0 none⟩

/-- **A phrase is classified in one way only.** -/
theorem Classified.unique (h : p.Classified gs rs) (h' : p.Classified gs' rs') :
    gs' = gs ∧ rs' = rs := by
  obtain rfl := h'.row.eq_of_flatten_eq h.row (h'.flatten.trans h.flatten.symm)
  have hroles : Roles (endsOperand none) gs' rs := h.roles
  have hroles' : Roles (endsOperand none) gs' rs' := h'.roles
  exact ⟨rfl, (hroles'.eq_itemsFrom h.row 0).trans (hroles.eq_itemsFrom h.row 0).symm⟩

end Phrase

/-! ## The lowest of several operators -/

namespace Candidate

theorem isLower_iff {later earlier : Candidate} :
    later.isLower earlier ↔ later.rank.level < earlier.rank.level
      ∨ later.rank.level = earlier.rank.level ∧ later.rank.direction = .leftToRight := by
  unfold isLower
  split
  · next hdir => simp [hdir, Nat.le_iff_lt_or_eq]
  · next hdir => simp [hdir]

/-- **What is found to bind last** is lower than those before it, and none behind it is lower. -/
theorem exists_append_of_lowest? {cs : List Candidate} {c : Candidate} (h : lowest? cs = some c) :
    ∃ as bs, cs = as ++ c :: bs ∧ (∀ a ∈ as, c.isLower a) ∧ ∀ b ∈ bs, ¬b.isLower c := by
  induction cs using List.reverseRecOn generalizing c with
  | nil => cases h
  | append_singleton cs d ih =>
    rw [lowest?, List.foldl_append, List.foldl_cons, List.foldl_nil] at h
    cases hbest : cs.foldl lower none with
    | none =>
      obtain rfl : cs = [] := List.eq_nil_iff_forall_not_mem.mpr fun b hb => by
        obtain ⟨_, hb, -⟩ := exists_lowest?_of_mem hb
        cases hb.symm.trans hbest
      cases h
      exact ⟨[], [], rfl, List.forall_mem_nil _, List.forall_mem_nil _⟩
    | some best =>
      obtain ⟨as, bs, rfl, has, hbs⟩ := ih hbest
      rw [hbest, lower] at h
      split at h
      · next hlower =>
        cases h
        refine ⟨as ++ best :: bs, [], rfl, ?_, List.forall_mem_nil _⟩
        -- what the best so far is lower than, the next one is lower than too
        simp only [isLower_iff] at has hbs hlower ⊢
        intro a ha
        rcases List.mem_append.mp ha with ha | ha
        · have := has a ha
          grind
        · rcases List.mem_cons.mp ha with rfl | ha
          · exact hlower
          · have := hbs a ha
            grind
      · next hlower =>
        cases h
        refine ⟨as, bs ++ [d], by rw [List.append_assoc]; rfl, has, ?_⟩
        intro b hb
        rcases List.mem_append.mp hb with hb | hb
        · exact hbs b hb
        · obtain rfl := List.mem_singleton.mp hb
          exact hlower

end Candidate

theorem Item.candidate?_of_role {x : Item} {op : Operator} {rank : Rank}
    (h : x.role = .operator op rank) :
    x.candidate? = some ⟨x.place, x.tokens.length, op, rank⟩ := by
  rw [candidate?, h]

theorem Item.role_of_candidate? {x : Item} {c : Candidate} (h : x.candidate? = some c) :
    x.role = .operator c.op c.rank ∧ c.place = x.place ∧ c.width = x.tokens.length := by
  unfold candidate? at h
  split at h
  · next hrole =>
    cases h
    exact ⟨hrole, rfl, rfl⟩
  · cases h

/-- No item binds last just if none is an operator. -/
theorem lowest?_eq_none_iff {items : List Item} :
    Candidate.lowest? (items.filterMap Item.candidate?) = none
      ↔ ∀ op rank, Role.operator op rank ∉ items.map Item.role := by
  constructor
  · intro h op rank hmem
    obtain ⟨x, hx, hrole⟩ := List.mem_map.mp hmem
    have hc := List.mem_filterMap.mpr ⟨x, hx, Item.candidate?_of_role hrole⟩
    obtain ⟨_, hb, -⟩ := Candidate.exists_lowest?_of_mem hc
    cases h.symm.trans hb
  · intro h
    by_contra hne
    obtain ⟨c, hc⟩ := Option.ne_none_iff_exists'.mp hne
    obtain ⟨x, hx, hxc⟩ := List.mem_filterMap.mp (Candidate.mem_of_lowest? hc)
    exact h c.op c.rank (List.mem_map.mpr ⟨x, hx, (Item.role_of_candidate? hxc).1⟩)

/-- A row of items falls apart at the one that is found to bind last. -/
theorem exists_items_of_lowest? {items : List Item} {c : Candidate}
    (h : Candidate.lowest? (items.filterMap Item.candidate?) = some c) :
    ∃ xs x ys, items = xs ++ x :: ys ∧ x.candidate? = some c
      ∧ (∀ y ∈ xs, ∀ a, y.candidate? = some a → c.isLower a)
      ∧ ∀ y ∈ ys, ∀ b, y.candidate? = some b → ¬b.isLower c := by
  obtain ⟨as, bs, hsplit, has, hbs⟩ := Candidate.exists_append_of_lowest? h
  obtain ⟨xs, rest, rfl, rfl, hrest⟩ := List.filterMap_eq_append_iff.mp hsplit
  obtain ⟨ws, x, ys, rfl, hws, hx, rfl⟩ := List.filterMap_eq_cons_iff.mp hrest
  refine ⟨xs ++ ws, x, ys, (List.append_assoc ..).symm, hx, fun y hy a ha => ?_,
    fun y hy b hb => hbs b (List.mem_filterMap.mpr ⟨y, hy, hb⟩)⟩
  rcases List.mem_append.mp hy with hy | hy
  · exact has a (List.mem_filterMap.mpr ⟨y, hy, ha⟩)
  · cases (hws y hy).symm.trans ha

/-- **Which operators the lowest one is lower than** depends on the side that they stand on. -/
theorem cases_of_operator {xs ys : List Item} {x : Item} {c : Candidate}
    (hx : x.candidate? = some c) (hbefore : ∀ y ∈ xs, ∀ a, y.candidate? = some a → c.isLower a)
    (hbehind : ∀ y ∈ ys, ∀ b, y.candidate? = some b → ¬b.isLower c) {j : Nat} {op : Operator}
    {rank : Rank} (hj : ((xs ++ x :: ys).map Item.role)[j]? = some (.operator op rank)) :
    (j < xs.length ∧ (c.rank.level < rank.level
        ∨ c.rank.level = rank.level ∧ c.rank.direction = .leftToRight))
      ∨ (j = xs.length ∧ rank = c.rank)
      ∨ (xs.length < j ∧ (c.rank.level < rank.level
        ∨ rank.level = c.rank.level ∧ rank.direction = .rightToLeft)) := by
  obtain ⟨y, hy, hrole⟩ := Option.map_eq_some_iff.mp (List.getElem?_map .. ▸ hj)
  have hc := Item.candidate?_of_role hrole
  rcases Nat.lt_trichotomy j xs.length with hlt | rfl | hgt
  · rw [List.getElem?_append_left hlt] at hy
    have hlower := hbefore y (List.mem_of_getElem? hy) _ hc
    exact .inl ⟨hlt, Candidate.isLower_iff.mp hlower⟩
  · rw [List.getElem?_append_right (Nat.le_refl _), Nat.sub_self] at hy
    cases hy
    cases hc.symm.trans hx
    exact .inr (.inl ⟨rfl, rfl⟩)
  · obtain ⟨k, rfl⟩ := Nat.exists_eq_add_of_lt hgt
    rw [List.getElem?_append_right hgt.le, Nat.add_assoc, Nat.add_sub_cancel_left,
      List.getElem?_cons_succ] at hy
    have hnot := hbehind y (List.mem_of_getElem? hy) _ hc
    rw [Candidate.isLower_iff] at hnot
    refine .inr (.inr ⟨hgt, ?_⟩)
    cases hdir : rank.direction <;> grind

/-- **What is found to bind last binds last**, where the direction goes with the level. -/
theorem exists_bindsLast_of_lowest? {items : List Item} {c : Candidate}
    (h : Candidate.lowest? (items.filterMap Item.candidate?) = some c)
    (hranks : ∀ a ∈ items.filterMap Item.candidate?, a.rank = .ofLevel a.rank.level) :
    ∃ i x, items[i]? = some x ∧ x.candidate? = some c
      ∧ BindsLast (items.map Item.role) i c.op c.rank := by
  have hc := hranks c (Candidate.mem_of_lowest? h)
  obtain ⟨xs, x, ys, rfl, hx, hbefore, hbehind⟩ := exists_items_of_lowest? h
  refine ⟨xs.length, x, by simp, hx, ⟨by simp [(Item.role_of_candidate? hx).1], ?_, ?_, ?_⟩⟩
  · intro j op rank hj
    rcases cases_of_operator hx hbefore hbehind hj with
      ⟨-, hlt | ⟨heq, -⟩⟩ | ⟨-, rfl⟩ | ⟨-, hlt | ⟨heq, -⟩⟩ <;> omega
  · -- it is the first one by its own direction
    intro hlevel j op rank hj hsame
    have hright := (Rank.direction_eq_iff hc).mpr hlevel
    rcases cases_of_operator hx hbefore hbehind hj with
      ⟨-, hlt | ⟨-, hleft⟩⟩ | ⟨rfl, -⟩ | ⟨hgt, -⟩
    · exact absurd hsame hlt.ne'
    · cases hright.symm.trans hleft
    · exact Nat.le_refl _
    · exact hgt.le
  · -- it is the last one by the direction of those behind it
    intro hlevel j op rank hj hsame
    rcases cases_of_operator hx hbefore hbehind hj with
      ⟨hlt, -⟩ | ⟨rfl, -⟩ | ⟨-, hlt | ⟨-, hright⟩⟩
    · exact hlt.le
    · exact Nat.le_refl _
    · exact absurd hsame hlt.ne'
    · obtain ⟨y, hy, hrole⟩ := List.mem_map.mp (List.mem_of_getElem? hj)
      have hrank := hranks _ (List.mem_filterMap.mpr ⟨y, hy, Item.candidate?_of_role hrole⟩)
      exact absurd (hsame ▸ (Rank.direction_eq_iff hrank).mp hright) hlevel

/-! ## The parts of a division -/

namespace Phrase

variable {p : Phrase} {gs : List (List Token)}

theorem isStretch_take {as bs : List Token} (h : p.tokens = as ++ bs) :
    p.IsStretch 0 as (p.take as.length) :=
  ⟨by rw [Nat.zero_add]; rfl, tokens_take_of_append h⟩

theorem isStretch_drop {as bs : List Token} (h : p.tokens = as ++ bs) :
    p.IsStretch as.length bs (p.drop as.length) :=
  ⟨by rw [drop, size, h, List.length_append], tokens_drop_of_append h⟩

theorem isStretch_behind {as bs : List Token} {t : Token} (h : p.tokens = as ++ t :: bs) :
    p.IsStretch (as.length + 1) bs (p.drop (as.length + 1)) := by
  refine ⟨?_, tokens_drop_of_cons h⟩
  rw [drop, size, h, List.length_append, List.length_cons, Nat.add_right_comm, Nat.add_assoc]

theorem isStretch_interior {as bs inner : List Token} {o c : Token}
    (h : p.tokens = as ++ o :: (inner ++ c :: bs)) :
    p.IsStretch (as.length + 1) inner
      (p.slice (as.length + 1) (as.length + (inner.length + 2) - 1)) := by
  have hstop : as.length + (inner.length + 2) - 1 = as.length + inner.length + 1 := by omega
  rw [hstop]
  exact ⟨by rw [Nat.add_right_comm], tokens_slice_of_bracketed h⟩

section Division

variable {i : Nat} {g : List Token} {op : Operator} {rank : Rank}
  (hflat : gs.flatten = p.tokens)
include hflat

theorem tokens_eq_take_append_drop (i : Nat) :
    p.tokens = (gs.take i).flatten ++ (gs.drop i).flatten := by
  rw [← hflat, ← List.flatten_append, List.take_append_drop]

/-- Brackets that are divided no further. -/
theorem isDivision_onward {width : Nat} (hop : op ∈ [Operator.call, .array, .dictionary]) :
    p.IsDivision gs i (p.divide ⟨(gs.take i).flatten.length, width, op, rank⟩) := by
  have hp := tokens_eq_take_append_drop hflat i
  obtain ⟨hinterior, hall⟩ := (by decide : ∀ op ∈ [Operator.call, .array, .dictionary],
    op ∉ [Operator.index, .slice] ∧ op ∈ [Operator.index, .slice, .call, .array, .dictionary])
    op hop
  refine ⟨isStretch_take hp, fun h => absurd h hinterior, fun _ => ?_, fun h => absurd hall h⟩
  simp only [List.mem_cons, List.not_mem_nil, or_false] at hop
  rcases hop with rfl | rfl | rfl
  all_goals exact isStretch_drop hp

variable (hg : gs[i]? = some g)
include hg

theorem tokens_eq_take_append_cons :
    p.tokens = (gs.take i).flatten ++ (g ++ (gs.drop (i + 1)).flatten) := by
  obtain ⟨hi, rfl⟩ := List.getElem?_eq_some_iff.mp hg
  rw [tokens_eq_take_append_drop hflat i, List.drop_eq_getElem_cons hi, List.flatten_cons]

/-- Brackets behind an operand, what they enclose being divided off. -/
theorem isDivision_interior {inner : List Token} (hpair : IsPair .square inner g)
    (hop : op ∈ [Operator.index, .slice]) :
    p.IsDivision gs i (p.divide ⟨(gs.take i).flatten.length, g.length, op, rank⟩) := by
  have hp := tokens_eq_take_append_cons hflat hg
  have hinterior : p.IsStretch ((gs.take i).flatten.length + 1) inner
      (p.slice ((gs.take i).flatten.length + 1) ((gs.take i).flatten.length + g.length - 1)) := by
    obtain ⟨o, c, rfl, -, -⟩ := hpair
    rw [List.length_cons, List.length_append, List.length_singleton]
    exact isStretch_interior (by rw [hp, List.cons_append, List.append_assoc]; rfl)
  obtain ⟨honward, hall⟩ := (by decide : ∀ op ∈ [Operator.index, .slice],
    op ∉ [Operator.call, .array, .dictionary]
      ∧ op ∈ [Operator.index, .slice, .call, .array, .dictionary]) op hop
  refine ⟨isStretch_take hp, fun _ => ⟨inner, ⟨g, hg, hpair⟩, ?_⟩, fun h => absurd h honward,
    fun h => absurd hall h⟩
  simp only [List.mem_cons, List.not_mem_nil, or_false] at hop
  rcases hop with rfl | rfl
  all_goals exact hinterior

/-- A token between what is left and what is right of it. -/
theorem isDivision_behind {t : Token} (hone : g = [t]) (ht : t.IsOperator op) :
    p.IsDivision gs i (p.divide ⟨(gs.take i).flatten.length, g.length, op, rank⟩) := by
  have hp : p.tokens = (gs.take i).flatten ++ t :: (gs.drop (i + 1)).flatten := by
    rw [tokens_eq_take_append_cons hflat hg, hone, List.singleton_append]
  have hop := ht.op_notMem
  rw [divide_of_ranked ht.ranked?]
  refine ⟨isStretch_take hp, fun h => absurd h ?_, fun h => absurd h ?_,
    fun _ => isStretch_behind hp⟩
  all_goals
    simp only [List.mem_cons, List.not_mem_nil, or_false, not_or] at hop ⊢
    tauto

/-- **At an item that is an operator, a phrase is divided into what is on its sides.** -/
theorem isDivision_of_means {afterOperand : Bool} (h : Means afterOperand g (.operator op rank)) :
    p.IsDivision gs i (p.divide ⟨(gs.take i).flatten.length, g.length, op, rank⟩) := by
  cases h with
  | call | array | dictionary => exact isDivision_onward hflat (by decide)
  | slice hpair | index hpair => exact isDivision_interior hflat hg hpair (by decide)
  | sign hone ht | operator hone ht => exact isDivision_behind hflat hg hone ht

end Division

/-! ## Dividing -/

/-- The role of an item is what the item is. -/
theorem means_of_getElem?_itemsFrom {place i : Nat} {previous : Option Role} {x : Item}
    (h : Row gs) (hx : (itemsFrom place previous gs)[i]? = some x) :
    gs[i]? = some x.tokens ∧ x.place = place + (gs.take i).flatten.length
      ∧ Means (endsOperand (roleAfter previous (gs.take i))) x.tokens x.role := by
  rw [getElem?_itemsFrom] at hx
  obtain ⟨g, hg, rfl⟩ := Option.map_eq_some_iff.mp hx
  exact ⟨hg, rfl, means_roleOf (h g (List.mem_of_getElem? hg)) _⟩

/-- **Dividing a phrase finds the operator that binds last.**  A phrase of nested tokens is
classified in one way.  Dividing it never fails; it finds no operator just if none of the items is
one, and else it divides the phrase at the operator that binds last. -/
theorem lowest_binds_last (h : Nested p.tokens) :
    ∃ gs rs d?, p.Classified gs rs
      ∧ (∀ gs' rs', p.Classified gs' rs' → gs' = gs ∧ rs' = rs)
      ∧ p.lowest = .ok d?
      ∧ (d? = none ↔ ∀ op rank, Role.operator op rank ∉ rs)
      ∧ ∀ d ∈ d?, ∃ i rank, BindsLast rs i d.op rank ∧ p.IsDivision gs i d := by
  obtain ⟨gs, hrow, hflat⟩ := h
  have hclassified := classified_of_row hrow hflat
  refine ⟨gs, _, _, hclassified, fun _ _ => hclassified.unique, lowest_of_row hflat.symm hrow,
    ?_, ?_⟩
  · rw [Option.map_eq_none_iff]
    exact lowest?_eq_none_iff
  · intro d hd
    obtain ⟨c, hc, rfl⟩ := Option.map_eq_some_iff.mp hd
    obtain ⟨i, x, hi, hx, hlast⟩ := exists_bindsLast_of_lowest? hc fun _ => rank_eq_ofLevel_of_mem
    obtain ⟨hg, hplace, hmeans⟩ := means_of_getElem?_itemsFrom hrow hi
    obtain ⟨hrole, hcplace, hwidth⟩ := Item.role_of_candidate? hx
    obtain ⟨place, width, op, rank⟩ := c
    obtain rfl : place = _ := hcplace.trans (hplace.trans (Nat.zero_add _))
    obtain rfl : width = x.tokens.length := hwidth
    exact ⟨i, rank, hlast, isDivision_of_means hflat hg (hrole ▸ hmeans)⟩

/-- `-a - b[0] - (c)` has a sign, two operators of the same rank and brackets behind an operand; it
is divided at the last one of the two. -/
theorem lowest_binds_last_subtraction :
    Nested (whole (Source.ofString "-a - b[0] - (c)").scan.tokens).tokens
      ∧ (whole (Source.ofString "-a - b[0] - (c)").scan.tokens).lowest
        = .ok (some ⟨.minus, (whole (Source.ofString "-a - b[0] - (c)").scan.tokens).slice 0 7,
            (whole (Source.ofString "-a - b[0] - (c)").scan.tokens).slice 8 11⟩)
      ∧ ∃ gs rs d?, (whole (Source.ofString "-a - b[0] - (c)").scan.tokens).Classified gs rs
        ∧ (∀ gs' rs', (whole (Source.ofString "-a - b[0] - (c)").scan.tokens).Classified gs' rs' →
            gs' = gs ∧ rs' = rs)
        ∧ (whole (Source.ofString "-a - b[0] - (c)").scan.tokens).lowest = .ok d?
        ∧ (d? = none ↔ ∀ op rank, Role.operator op rank ∉ rs)
        ∧ ∀ d ∈ d?, ∃ i rank, BindsLast rs i d.op rank
          ∧ (whole (Source.ofString "-a - b[0] - (c)").scan.tokens).IsDivision gs i d :=
  have hnested : Nested (whole (Source.ofString "-a - b[0] - (c)").scan.tokens).tokens :=
    Source.nested_scan (by decide +kernel)
  ⟨hnested, by decide +kernel, lowest_binds_last hnested⟩

end Phrase

end ScriptReader

import ScriptReader.Phrase.Brackets

/-!
# Expr/Item — a phrase as a row of items

Seen from outside, every bracket group of a phrase is one item, and so is every token outside the
groups (`Phrase.groupsFrom`).  Whether an item is an operator, and which one, depends on its own
text and kind and on the item before it alone (`Role.of`): a bracket or a sign after a complete
operand means something else than one at the beginning or after an operator.
-/

namespace ScriptReader

/-! ## Ranks -/

/-- From which side operators group that bind equally tight. -/
inductive Direction where
  | leftToRight
  | rightToLeft
  deriving DecidableEq, Repr

/-- How an operator binds: the lower its level, the looser. -/
structure Rank where
  level : Nat
  direction : Direction
  deriving DecidableEq, Repr

/-- No operator has a level as high as this. -/
def highestLevel : Nat := 2147483647

def memberRank : Rank := ⟨13, .leftToRight⟩

/-- The rank of brackets that follow an operand. -/
def suffixRank : Rank := ⟨14, .leftToRight⟩

/-- The rank of brackets that are operands themselves. -/
def containerRank : Rank := ⟨highestLevel - 1, .leftToRight⟩

/-- By how much an operator binds tighter where it has no left operand. -/
def signBoost : Nat := 2

/-- The rank of a sign, from that of the operator between operands. -/
def Rank.boosted (r : Rank) : Rank := ⟨r.level + signBoost, .rightToLeft⟩

/-- The operators between operands, with their ranks. -/
def ranking : List (Operator × Rank) :=
  [(.plusAssign, ⟨0, .rightToLeft⟩), (.minusAssign, ⟨0, .rightToLeft⟩),
    (.multiplyAssign, ⟨0, .rightToLeft⟩), (.divideAssign, ⟨0, .rightToLeft⟩),
    (.moduloAssign, ⟨0, .rightToLeft⟩), (.or, ⟨1, .leftToRight⟩), (.and, ⟨2, .leftToRight⟩),
    (.not, ⟨3, .rightToLeft⟩), (.within, ⟨4, .leftToRight⟩), (.equal, ⟨5, .leftToRight⟩),
    (.notEqual, ⟨5, .leftToRight⟩), (.less, ⟨6, .leftToRight⟩), (.greater, ⟨6, .leftToRight⟩),
    (.lessEqual, ⟨6, .leftToRight⟩), (.greaterEqual, ⟨6, .leftToRight⟩), (.plus, ⟨9, .leftToRight⟩),
    (.minus, ⟨9, .leftToRight⟩), (.multiply, ⟨10, .leftToRight⟩), (.divide, ⟨10, .leftToRight⟩),
    (.modulo, ⟨10, .leftToRight⟩), (.member, memberRank)]

/-- The operator that a token is, if it stands between operands. -/
def Token.ranked? (t : Token) : Option (Operator × Rank) :=
  if t.kind = .operator ∨ t.kind = .keyword then ranking.find? fun r => r.1.symbol == t.text
  else none

/-! ## Roles -/

/-- What an item is in its row. -/
inductive Role where
  /-- A name or a literal, or what is out of place. -/
  | operand
  /-- Parentheses around an operand. -/
  | parentheses
  | operator (op : Operator) (rank : Rank)
  deriving DecidableEq, Repr

namespace Role

/-- Is an operand complete after the item? -/
def completes : Role → Bool
  | operand | parentheses => true
  | operator op _ =>
    op ∈ [Operator.call, .index, .slice, .array, .dictionary]

/-- The role of a bracket group. -/
def ofGroup (b : Bracket) (afterOperand : Bool) (group : List Token) : Role :=
  match b, afterOperand with
  | .round, true => operator .call suffixRank
  | .round, false => parentheses
  | .square, true =>
    if (ScriptReader.findOutside? ":" 0 group.dropLast.tail).isSome then operator .slice suffixRank
    else operator .index suffixRank
  | .square, false => operator .array containerRank
  | .curly, _ => operator .dictionary containerRank

/-- The role of a token outside brackets. -/
def ofToken (afterOperand : Bool) (t : Token) : Role :=
  match t.ranked? with
  | none => operand
  | some (op, rank) =>
    if (op = .plus ∨ op = .minus) ∧ !afterOperand then operator op rank.boosted
    else operator op rank

/-- The role of an item after the given one. -/
def of (previous : Option Role) (group : List Token) : Role :=
  let afterOperand := previous.any completes
  match group with
  | [] => operand
  | t :: _ =>
    match Bracket.ofOpenerText? t.text with
    | some b => ofGroup b afterOperand group
    | none => ofToken afterOperand t

end Role

/-! ## Items -/

/-- A bracket group or a token outside all groups, with its place and its role. -/
structure Item where
  place : Nat
  tokens : List Token
  role : Role
  deriving DecidableEq, Repr

/-- Finds the bracket groups among tokens that are the phrase's from `pos` on. -/
def Phrase.groupsFrom (p : Phrase) (pos : Nat) : List Token → Except Error (List (List Token))
  | [] => .ok []
  | t :: ts =>
    match Bracket.ofOpenerText? t.text with
    | none => ([t] :: ·) <$> groupsFrom p (pos + 1) ts
    | some b =>
      match partner? b.openerText b.closerText 0 (t :: ts) with
      | none => p.refuse pos (.noClosing (p.found pos))
      | some k => ((t :: ts.take k) :: ·) <$> groupsFrom p (pos + k + 1) (ts.drop k)
termination_by ts => ts.length
decreasing_by all_goals simp only [List.length_cons, List.length_drop]; omega

/-- Gives every group its place and its role. -/
def itemsFrom (place : Nat) (previous : Option Role) : List (List Token) → List Item
  | [] => []
  | group :: groups =>
    let role := Role.of previous group
    ⟨place, group, role⟩ :: itemsFrom (place + group.length) (some role) groups

/-- The items of a phrase; it is refused if a bracket in it is never closed. -/
def Phrase.items (p : Phrase) : Except Error (List Item) :=
  itemsFrom 0 none <$> p.groupsFrom 0 p.tokens

/-! ## The row is the phrase -/

/-- **The groups are the tokens, and none is empty.** -/
theorem Phrase.flatten_groupsFrom {p : Phrase} {pos : Nat} {ts : List Token}
    {groups : List (List Token)} (h : p.groupsFrom pos ts = .ok groups) :
    groups.flatten = ts ∧ ∀ g ∈ groups, g ≠ [] := by
  fun_induction groupsFrom p pos ts generalizing groups with
  | case1 => cases h; simp
  | case2 pos t ts hb ih =>
    cases hr : groupsFrom p (pos + 1) ts with
    | error e => rw [hr] at h; cases h
    | ok rest =>
      rw [hr] at h; cases h
      obtain ⟨hf, hne⟩ := ih hr
      exact ⟨by simp [hf], List.forall_mem_cons.mpr ⟨by simp, hne⟩⟩
  | case3 => cases h
  | case4 pos t ts b hb k hk ih =>
    cases hr : groupsFrom p (pos + k + 1) (ts.drop k) with
    | error e => rw [hr] at h; cases h
    | ok rest =>
      rw [hr] at h; cases h
      obtain ⟨hf, hne⟩ := ih hr
      exact ⟨by simp [hf], List.forall_mem_cons.mpr ⟨by simp, hne⟩⟩

theorem place_lt_of_mem_itemsFrom {place : Nat} {previous : Option Role}
    {groups : List (List Token)} {x : Item} (hne : ∀ g ∈ groups, g ≠ [])
    (h : x ∈ itemsFrom place previous groups) : x.place < place + groups.flatten.length := by
  induction groups generalizing place previous with
  | nil => cases h
  | cons g groups ih =>
    have hg := List.length_pos_iff.mpr (hne g List.mem_cons_self)
    simp only [itemsFrom, List.mem_cons, List.flatten_cons, List.length_append] at h ⊢
    rcases h with rfl | h
    · simp only; omega
    · have := ih (fun g hg => hne g (List.mem_cons_of_mem _ hg)) h
      omega

/-- Every item has its place within the phrase. -/
theorem Phrase.place_lt_of_mem_items {p : Phrase} {items : List Item} {x : Item}
    (h : p.items = .ok items) (hx : x ∈ items) : x.place < p.size := by
  unfold Phrase.items at h
  cases hg : p.groupsFrom 0 p.tokens with
  | error e => rw [hg] at h; cases h
  | ok groups =>
    rw [hg] at h; cases h
    obtain ⟨hf, hne⟩ := flatten_groupsFrom hg
    have := place_lt_of_mem_itemsFrom hne hx
    rwa [hf, Nat.zero_add] at this

end ScriptReader

import ScriptReader.Proofs.Expr.Alike
import ScriptReader.Proofs.Expr.Inversion

/-!
# Proofs/Expr/LookedUp — how the look-up that a phrase is read with shows in what is read

The look-up goes on to the right operand of an operator, and to nothing else.  So it shows in the
name at the right end of an expression, if there is one, and nowhere else: reading with one look-up
is reading by value with this name changed (`Expr.read_rebound`).
-/

namespace ScriptReader

/-- A phrase that is divided, without the parentheses around it, has tokens. -/
theorem Phrase.tokens_ne_nil_of_lowest {p q : Phrase} {d : Division} (hq : p.unwrap = .ok q)
    (hd : q.lowest = .ok (some d)) : p.tokens ≠ [] := by
  have hlt : d.left.size < p.size := Nat.lt_of_lt_of_le (size_left_lt hd) (size_unwrap_le hq)
  exact List.ne_nil_of_length_pos (Nat.zero_lt_of_lt hlt)

namespace Expr

/-! ## The name at the right end -/

/-- The expression whose name at the right end, if there is one, is looked up this way. -/
def rebound (lookup : Lookup) : Expr → Expr
  | .name identifier _ => .name identifier lookup
  | .binary op left right => .binary op left (right.rebound lookup)
  | e => e

/-- Is there a name at the right end, behind all operators? -/
def endsInName : Expr → Bool
  | .name .. => true
  | .binary _ _ right => right.endsInName
  | _ => false

/-- **An expression that is looked up by value is changed just if it ends in a name** and the name
is to be looked up in another way. -/
theorem rebound_eq_self_iff {lookup : Lookup} {e : Expr} (h : e.rebound .value = e) :
    e.rebound lookup = e ↔ lookup = .value ∨ e.endsInName = false := by
  fun_induction endsInName e with
  | case1 identifier lookup' =>
    cases h
    simp [rebound]
  | case2 op left right ih =>
    simp only [rebound, Expr.binary.injEq, true_and] at h ⊢
    exact ih h
  | case3 e hname hbinary =>
    have hsame : e.rebound lookup = e := by rw [rebound] <;> assumption
    simp [hsame]

/-- Containers and calls end in no name. -/
theorem HasBrackets.rebound_eq {e : Expr} (h : e.HasBrackets) (lookup : Lookup) :
    e.rebound lookup = e := by
  cases h with
  | array | dictionary | call | builtIn => rfl

/-! ## Reading with a look-up -/

theorem map_rebound_of_hasBrackets {x : Except Error Expr} (h : Yields HasBrackets x)
    (lookup : Lookup) : x = rebound lookup <$> x := by
  cases x with
  | error e => rfl
  | ok e => exact congrArg Except.ok ((h e rfl).rebound_eq lookup).symm

theorem ofOperand_rebound (p : Phrase) (lookup : Lookup) :
    ofOperand p lookup = rebound lookup <$> ofOperand p .value := by
  unfold ofOperand
  split
  · rfl
  · unfold ofToken
    repeat' split
    all_goals rfl
  · rfl

section Rules

variable {n : Nat} {sub : Sub n}

/-- The right operand is looked up as the whole is, and the left one is not. -/
theorem readOperator_rebound {op : Operator} {left right : Phrase} {hl : left.size < n}
    {hr : right.size < n} (lookup : Lookup)
    (hright : sub right hr lookup = rebound lookup <$> sub right hr .value) :
    readOperator sub op left right hl hr lookup
      = rebound lookup <$> readOperator sub op left right hl hr .value := by
  unfold readOperator
  split
  · rfl
  split
  · split
    · cases sub right hr .value <;> rfl
    · rfl
  split
  · rfl
  cases sub left hl (if op.assigns then .reference else .value) with
  | error e => rfl
  | ok l =>
    by_cases hslice : op = .slice
    · simp only [if_pos hslice]
      cases readSegments sub ":" right hr <;> rfl
    · simp only [if_neg hslice, hright]
      cases sub right hr .value <;> rfl

end Rules

theorem readUnwrapped_rebound {p : Phrase} (lookup : Lookup)
    (h : ∀ q : Phrase, q.size < p.size → read q lookup = rebound lookup <$> read q .value) :
    readUnwrapped p (reading p.size) lookup
      = rebound lookup <$> readUnwrapped p (reading p.size) .value := by
  cases hd : p.lowest with
  | error e =>
    rw [readUnwrapped_of_error hd, readUnwrapped_of_error hd]
    rfl
  | ok d? =>
    cases d? with
    | none =>
      rw [readUnwrapped_of_undivided hd, readUnwrapped_of_undivided hd]
      exact ofOperand_rebound p lookup
    | some d =>
      rw [readUnwrapped_of_lowest hd, readUnwrapped_of_lowest hd]
      dsimp only
      split
      · exact map_rebound_of_hasBrackets hasBrackets_readArray lookup
      split
      · exact map_rebound_of_hasBrackets hasBrackets_readDictionary lookup
      split
      · exact map_rebound_of_hasBrackets hasBrackets_readCall lookup
      · next harray hdictionary hcall =>
        exact readOperator_rebound lookup
          (h d.right (Phrase.size_right_lt hd hcall harray hdictionary))

/-- **Reading with a look-up is reading by value**, but for the name at the right end. -/
theorem read_rebound (p : Phrase) (lookup : Lookup) :
    read p lookup = rebound lookup <$> read p .value := by
  induction hn : p.size using Nat.strongRecOn generalizing p with
  | ind n ih =>
    subst hn
    by_cases hnil : p.tokens = []
    · have hempty : p.isEmpty = true := List.isEmpty_iff.mpr hnil
      rw [read_eq, readStep, if_pos hempty, read_eq, readStep, if_pos hempty]
      rfl
    · rw [read_of_ne_nil hnil, read_of_ne_nil hnil]
      cases hq : p.unwrap with
      | error e => rfl
      | ok q =>
        refine readUnwrapped_rebound lookup fun r hr => ?_
        exact ih r.size (Nat.lt_of_lt_of_le hr (Phrase.size_unwrap_le hq)) r rfl

/-- **What is read with a look-up** can be read by value, and differs in how the name at its right
end is looked up, if at all. -/
theorem exists_of_read_rebound {p : Phrase} {lookup : Lookup} {e : Expr}
    (h : read p lookup = .ok e) :
    ∃ e₀, read p .value = .ok e₀ ∧ e = e₀.rebound lookup
      ∧ (e = e₀ ↔ lookup = .value ∨ e₀.endsInName = false) := by
  rw [read_rebound] at h
  obtain ⟨e₀, hread, rfl⟩ := exists_of_map_ok h
  have hvalue := read_rebound p .value
  rw [hread] at hvalue
  exact ⟨e₀, hread, rfl, rebound_eq_self_iff (Except.ok.inj hvalue).symm⟩

/-! ## The operands of an operator -/

/-- How the operands are looked up: what is assigned to is a reference, any other left operand a
value, and the right one is looked up as the whole is. -/
theorem operands_of_readOperator {n : Nat} {sub : Sub n} {op op' : Operator}
    {left right : Phrase} {hl : left.size < n} {hr : right.size < n} {lookup : Lookup}
    {l r : Expr} (h : readOperator sub op' left right hl hr lookup = .ok (.binary op l r)) :
    sub left hl (if op.assigns then .reference else .value) = .ok l
      ∧ (op ≠ .slice → sub right hr lookup = .ok r) := by
  obtain ⟨rfl, hleft, -⟩ := (readOperator_cases h).exists_left
  unfold readOperator at h
  split at h
  · cases h
  rw [if_neg (by rw [hleft]; exact Bool.false_ne_true)] at h
  split at h
  · cases h
  obtain ⟨l', hl', h⟩ := exists_of_bind_ok h
  dsimp only at h
  split at h
  · next hslice =>
    obtain ⟨r', -, h⟩ := exists_of_bind_ok h
    cases h
    exact ⟨hl', fun hnot => absurd hslice hnot⟩
  · obtain ⟨r', hr', h⟩ := exists_of_bind_ok h
    cases h
    exact ⟨hl', fun _ => hr'⟩

/-- **Where two operands are read**, and how they are looked up: what is assigned to is a reference,
any other left operand a value, and the right one is looked up as the whole is. -/
theorem operands_of_read {p : Phrase} {lookup : Lookup} {op : Operator} {l r : Expr}
    (h : read p lookup = .ok (.binary op l r)) (hslice : op ≠ .slice) :
    ∃ q d, p.unwrap = .ok q ∧ q.lowest = .ok (some d) ∧ d.op = op
      ∧ d.left.isEmpty = false ∧ d.right.isEmpty = false
      ∧ read d.left (if op.assigns then .reference else .value) = .ok l
      ∧ read d.right lookup = .ok r := by
  obtain ⟨q, d, hq, hd, -⟩ := readOperator_of_read h (.binary _ _ _)
  rw [read_of_ne_nil (Phrase.tokens_ne_nil_of_lowest hq hd), hq] at h
  have hunwrapped : readUnwrapped q (reading q.size) lookup = .ok (.binary op l r) := h
  rw [readUnwrapped_of_lowest hd] at hunwrapped
  dsimp only at hunwrapped
  split at hunwrapped
  · cases hasBrackets_readArray _ hunwrapped
  split at hunwrapped
  · cases hasBrackets_readDictionary _ hunwrapped
  split at hunwrapped
  · cases hasBrackets_readCall _ hunwrapped
  · have hsides := readOperator_cases hunwrapped
    obtain ⟨hop, hleft, -⟩ := hsides.exists_left
    obtain ⟨hright, -⟩ := hsides.exists_right (hop ▸ hslice)
    obtain ⟨hl, hr⟩ := operands_of_readOperator hunwrapped
    exact ⟨q, d, hq, hd, hop.symm, hleft, hright, hl, hr hslice⟩

/-- An operator between two operands that are read is read with them. -/
theorem read_of_operands {p q : Phrase} {d : Division} {lookup : Lookup} {l r : Expr}
    (hq : p.unwrap = .ok q) (hd : q.lowest = .ok (some d))
    (hop : d.op ∉ [Operator.call, .array, .dictionary, .not, .slice])
    (hleft : d.left.isEmpty = false) (hright : d.right.isEmpty = false)
    (hl : read d.left (if d.op.assigns then .reference else .value) = .ok l)
    (hr : read d.right lookup = .ok r) : read p lookup = .ok (.binary d.op l r) := by
  have hne := Phrase.tokens_ne_nil_of_lowest hq hd
  simp only [List.mem_cons, List.not_mem_nil, or_false, not_or] at hop
  obtain ⟨hcall, harray, hdictionary, hnot, hslice⟩ := hop
  rw [read_of_ne_nil hne, hq]
  refine (readUnwrapped_of_lowest hd lookup).trans ?_
  dsimp only
  rw [dif_neg harray, dif_neg hdictionary, dif_neg hcall]
  exact readOperator_binary (by rintro h; simp [Phrase.isEmpty, h] at hleft)
    (by rintro h; simp [Phrase.isEmpty, h] at hright) hnot hslice hl hr

end Expr

end ScriptReader

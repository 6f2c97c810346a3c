import ScriptReader.Proofs.Expr.Covered

/-!
# Proofs/Expr/Inversion — what an expression tells about the phrase it was read from

Each rule of reading makes expressions of its own form (`Expr.readBy_of_read`), so that the form
tells which rule it was, and of what its parts were read.  Hence a name is looked up as its phrase
is (`Expr.lookup_of_read`).
-/

namespace ScriptReader

/-! ## What a run yields -/

/-- If the run comes to a result, it has the property. -/
def Yields {α : Type} (P : α → Prop) (x : Except Error α) : Prop := ∀ a, x = .ok a → P a

namespace Yields

variable {α β : Type} {P : α → Prop} {Q : β → Prop} {x : Except Error α}

theorem ok {a : α} (h : P a) : Yields P (.ok a) := by
  intro b hb
  cases hb
  exact h

theorem error {e : Error} : Yields P (.error e) := by
  intro a ha
  cases ha

theorem refuse {p : Phrase} {pos : Nat} {problem : Problem} : Yields P (p.refuse pos problem) :=
  error

theorem trivial : Yields (fun _ => True) x := fun _ _ => True.intro

theorem bind {f : α → Except Error β} (h : Yields P x) (hf : ∀ a, P a → Yields Q (f a)) :
    Yields Q (x >>= f) := by
  intro b hb
  obtain ⟨a, ha, hb⟩ := Expr.exists_of_bind_ok hb
  exact hf a (h a ha) b hb

theorem map {f : α → β} (h : Yields P x) (hf : ∀ a, P a → Q (f a)) : Yields Q (f <$> x) := by
  cases x with
  | error e => nofun
  | ok a => exact ok (hf a (h a rfl))

theorem mapM {as : List β} {f : β → Except Error α} (h : ∀ a ∈ as, Yields P (f a)) :
    Yields (fun bs => ∀ b ∈ bs, P b) (as.mapM f) := by
  induction as with
  | nil => exact ok nofun
  | cons a as ih =>
    obtain ⟨ha, has⟩ := List.forall_mem_cons.mp h
    rw [List.mapM_cons]
    exact ha.bind fun b hb => (ih has).bind fun bs hbs => ok (List.forall_mem_cons.mpr ⟨hb, hbs⟩)

end Yields

namespace Expr

/-! ## The rule that an expression was read by -/

/-- The expression is a container or a call. -/
inductive HasBrackets : Expr → Prop
  | array (items : List Expr) : HasBrackets (.array items)
  | dictionary (entries : List (Expr × Expr)) : HasBrackets (.dictionary entries)
  | call (callee : Expr) (arguments : List Expr) : HasBrackets (.call callee arguments)
  | builtIn (function : BuiltIn) (arguments : List Expr) : HasBrackets (.builtIn function arguments)

section Rules

variable {n : Nat} {sub : Sub n}

theorem hasBrackets_readArray {p : Phrase} {hp : (p.trim 1).size < n} :
    Yields HasBrackets (readArray sub p hp) := by
  refine Yields.trivial.bind fun enclosed _ => ?_
  split
  · exact .refuse
  · exact Yields.trivial.bind fun es _ => .ok (.array es)

theorem hasBrackets_readDictionary {p : Phrase} {hp : (p.trim 1).size < n} :
    Yields HasBrackets (readDictionary sub p hp) := by
  refine Yields.trivial.bind fun enclosed _ => ?_
  split
  · exact .refuse
  · exact Yields.trivial.bind fun entries _ => .ok (.dictionary entries)

theorem hasBrackets_readCall {callee arguments : Phrase} {hc : callee.size < n}
    {ha : (arguments.trim 1).size < n} :
    Yields HasBrackets (readCall sub callee arguments hc ha) := by
  refine Yields.trivial.bind fun enclosed _ => ?_
  split
  · exact .refuse
  · refine Yields.trivial.bind fun read _ => ?_
    obtain ⟨named, others⟩ := read
    dsimp only
    split
    · exact .ok (.builtIn _ _)
    · exact Yields.trivial.bind fun f _ => .ok (.call f _)

/-- **What an operator makes of its operands**: it has no left one if nothing stands left of it, and
the bounds of a slice are an array. -/
inductive ReadOperator (sub : Sub n) (op : Operator) (left right : Phrase) (e : Expr) : Prop
  | unary {operand : Expr} {hr : right.size < n} (hleft : left.isEmpty)
      (hright : right.isEmpty = false) (hsign : isSign op)
      (hoperand : sub right hr .value = .ok operand) (he : e = .unary op operand)
  | binary {l r : Expr} {hl : left.size < n} {hr : right.size < n} {lookup lookup' : Lookup}
      (hleft : left.isEmpty = false) (hright : right.isEmpty = false) (hnot : op ≠ .not)
      (hslice : op ≠ .slice) (hl : sub left hl lookup = .ok l) (hr : sub right hr lookup' = .ok r)
      (he : e = .binary op l r)
  | slice {l : Expr} {bounds : List Expr} {hl : left.size < n} {hr : right.size < n}
      {lookup : Lookup} (hop : op = .slice) (hleft : left.isEmpty = false)
      (hl : sub left hl lookup = .ok l) (hbounds : readSegments sub ":" right hr = .ok bounds)
      (he : e = .binary .slice l (.array bounds))

/-- But for a slice, what is right of the operator is read, and is not empty. -/
theorem ReadOperator.exists_right {op : Operator} {left right : Phrase} {e : Expr}
    (h : ReadOperator sub op left right e) (hop : op ≠ .slice) :
    right.isEmpty = false ∧ ∃ (hr : right.size < n) (lookup : Lookup) (r : Expr),
      sub right hr lookup = .ok r := by
  cases h with
  | unary _ hright _ hoperand => exact ⟨hright, _, _, _, hoperand⟩
  | binary _ hright _ _ _ hr => exact ⟨hright, _, _, _, hr⟩
  | slice heq => exact absurd heq hop

/-- Left of an operator with two operands, one is read, and is not empty. -/
theorem ReadOperator.exists_left {op op' : Operator} {left right : Phrase} {l r : Expr}
    (h : ReadOperator sub op left right (.binary op' l r)) :
    op' = op ∧ left.isEmpty = false ∧ ∃ (hl : left.size < n) (lookup : Lookup),
      sub left hl lookup = .ok l := by
  cases h with
  | unary _ _ _ _ he => cases he
  | binary hleft _ _ _ hl _ he =>
    cases he
    exact ⟨rfl, hleft, _, _, hl⟩
  | slice hop hleft hl _ he =>
    cases he
    exact ⟨hop.symm, hleft, _, _, hl⟩

theorem exists_of_map_ok {ε α β : Type} {x : Except ε α} {f : α → β} {b : β}
    (h : f <$> x = .ok b) : ∃ a, x = .ok a ∧ b = f a := by
  cases x with
  | error => cases h
  | ok a => exact ⟨a, rfl, (Except.ok.inj h).symm⟩

theorem readOperator_cases {op : Operator} {left right : Phrase} {hl : left.size < n}
    {hr : right.size < n} {lookup : Lookup} {e : Expr}
    (h : readOperator sub op left right hl hr lookup = .ok e) :
    ReadOperator sub op left right e := by
  unfold readOperator at h
  split at h
  · cases h
  next hright =>
  rw [Bool.not_eq_true] at hright
  split at h
  · next hleft =>
    split at h
    · next hsign =>
      obtain ⟨operand, hoperand, h⟩ := exists_of_bind_ok h
      cases h
      exact .unary hleft hright hsign hoperand rfl
    · cases h
  next hleft =>
  rw [Bool.not_eq_true] at hleft
  split at h
  · cases h
  next hnot =>
  obtain ⟨l, hl, h⟩ := exists_of_bind_ok h
  dsimp only at h
  split at h
  · next hslice =>
    obtain ⟨r, hr, h⟩ := exists_of_bind_ok h
    obtain ⟨bounds, hbounds, rfl⟩ := exists_of_map_ok hr
    cases h
    subst hslice
    exact .slice rfl hleft hl hbounds rfl
  · next hslice =>
    obtain ⟨r, hr, h⟩ := exists_of_bind_ok h
    cases h
    exact .binary hleft hright hnot hslice hl hr rfl

end Rules

/-- **The rule that an expression was read by.** -/
inductive ReadBy (p : Phrase) (lookup : Lookup) (e : Expr) : Prop
  | nothing (hp : p.isEmpty) (he : e = .nothing)
  | operand {q : Phrase} (hq : p.unwrap = .ok q) (hnone : q.lowest = .ok none)
      (h : ofOperand q lookup = .ok e)
  | brackets {q : Phrase} {d : Division} (hq : p.unwrap = .ok q) (hd : q.lowest = .ok (some d))
      (hop : d.op ∈ [Operator.call, .array, .dictionary]) (he : e.HasBrackets)
  | operator {q : Phrase} {d : Division} (hq : p.unwrap = .ok q) (hd : q.lowest = .ok (some d))
      (h : ReadOperator (fun (r : Phrase) (_ : r.size < q.size) lookup => read r lookup) d.op
        d.left d.right e)

theorem readBy_of_read {p : Phrase} {lookup : Lookup} {e : Expr} (h : read p lookup = .ok e) :
    ReadBy p lookup e := by
  rw [read_eq, readStep] at h
  split at h
  · next hp =>
    cases h
    exact .nothing hp rfl
  split at h
  · cases h
  next q hq =>
  unfold readUnwrapped at h
  split at h
  · cases h
  · next hnone => exact .operand hq hnone h
  next d hd =>
  dsimp only at h
  split at h
  · next hop => exact .brackets hq hd (by simp [hop]) (hasBrackets_readArray _ h)
  split at h
  · next hop => exact .brackets hq hd (by simp [hop]) (hasBrackets_readDictionary _ h)
  split at h
  · next hop => exact .brackets hq hd (by simp [hop]) (hasBrackets_readCall _ h)
  · exact .operator hq hd (readOperator_cases h)

/-! ## Names and literals -/

/-- **A phrase without operators is a constant, or a name that is looked up as the phrase is.** -/
theorem cases_of_ofOperand {p : Phrase} {lookup : Lookup} {e : Expr}
    (h : ofOperand p lookup = .ok e) :
    (∃ c, e = .constant c) ∨ ∃ identifier, e = .name identifier lookup := by
  unfold ofOperand at h
  split at h
  · cases h
  · unfold ofToken at h
    repeat' split at h
    all_goals cases h
    all_goals first | exact .inl ⟨_, rfl⟩ | exact .inr ⟨_, rfl⟩
  · cases h

/-- The expression is an operator with its operands. -/
inductive IsOperation : Expr → Prop
  | unary (op : Operator) (operand : Expr) : IsOperation (.unary op operand)
  | binary (op : Operator) (left right : Expr) : IsOperation (.binary op left right)

/-- **An operator with its operands is read where a phrase is divided at the operator.** -/
theorem readOperator_of_read {p : Phrase} {lookup : Lookup} {e : Expr}
    (h : read p lookup = .ok e) (he : e.IsOperation) :
    ∃ q d, p.unwrap = .ok q ∧ q.lowest = .ok (some d)
      ∧ ReadOperator (fun (r : Phrase) (_ : r.size < q.size) lookup => read r lookup) d.op
        d.left d.right e := by
  cases readBy_of_read h with
  | nothing _ hnothing =>
    subst hnothing
    cases he
  | operand _ _ h =>
    rcases cases_of_ofOperand h with ⟨c, rfl⟩ | ⟨identifier, rfl⟩
    · cases he
    · cases he
  | brackets _ _ _ hbrackets =>
    cases hbrackets with
    | array | dictionary | call | builtIn => cases he
  | operator hq hd h => exact ⟨_, _, hq, hd, h⟩

/-- **A name that is read is looked up as the phrase is.** -/
theorem lookup_of_read {p : Phrase} {lookup lookup' : Lookup} {identifier : String}
    (h : read p lookup = .ok (.name identifier lookup')) : lookup' = lookup := by
  cases readBy_of_read h with
  | nothing _ he => cases he
  | operand _ _ h =>
    rcases cases_of_ofOperand h with ⟨c, he⟩ | ⟨identifier', he⟩
    · cases he
    · cases he
      rfl
  | brackets _ _ _ he => cases he
  | operator _ _ h => cases h with
    | unary _ _ _ _ he | binary _ _ _ _ _ _ he | slice _ _ _ _ he => cases he

/-- So is a name that is bound or assigned to. -/
theorem eq_name_of_readTarget {p : Phrase} {lookup : Lookup} {e : Expr}
    (h : readTarget p lookup = .ok e) (he : ¬e.identifier?.isNone) :
    ∃ identifier, e = .name identifier lookup := by
  obtain ⟨e', hread, h⟩ := exists_of_bind_ok h
  split at h
  · cases h
    cases e with
    | name identifier lookup' => exact ⟨identifier, by rw [lookup_of_read hread]⟩
    | constant | array | dictionary | unary | binary | call | builtIn => exact absurd rfl he
  · cases h

end Expr

end ScriptReader

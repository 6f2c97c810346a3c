import Mathlib.Algebra.Order.Group.Multiset
import ScriptReader.Expr.Reading
import ScriptReader.Proofs.Source.Lexeme

/-!
# Proofs/Expr/Leaves — operands among tokens, and the leaves of an expression

Words and literals are operands wherever they stand (`Token.leaf?`), and it is words and constants
that an expression ends in (`Expr.leaves`).  `Kept` says that leaves are the operands of the tokens
that are not lost, and nothings for what is absent; it composes as the tokens do.
-/

namespace ScriptReader

/-! ## Leaves -/

/-- What an operand is, whether it is a token or the end of an expression. -/
inductive Leaf where
  /-- A name, the key of a named argument, or the name of a built-in function. -/
  | word (s : String)
  | constant (c : Constant)
  /-- A numeral without a value, which no expression ends in. -/
  | malformed (numeral : String)
  deriving DecidableEq, Repr

/-- What an absent expression ends in. -/
def Leaf.nothing : Leaf := .constant .none

/-- The key of a named argument is a word. -/
def Leaf.ofKey : Expr → Multiset Leaf
  | .constant (.text s) => {.word s}
  | _ => 0

namespace Expr

mutual

/-- **The words and constants of the expression**, as often as they occur. -/
def leaves : Expr → Multiset Leaf
  | .constant c => {.constant c}
  | .name identifier _ => {.word identifier}
  | .array items => leavesAll items
  | .dictionary entries => leavesEntries entries
  | .unary _ operand => operand.leaves
  | .binary _ left right => left.leaves + right.leaves
  | .call callee arguments => callee.leaves + leavesArguments arguments
  | .builtIn function arguments => {.word function.name} + leavesArguments arguments

def leavesAll : List Expr → Multiset Leaf
  | [] => 0
  | e :: es => e.leaves + leavesAll es

def leavesEntries : List (Expr × Expr) → Multiset Leaf
  | [] => 0
  | (key, value) :: entries => key.leaves + value.leaves + leavesEntries entries

/-- The named arguments stand first, in a dictionary. -/
def leavesArguments : List Expr → Multiset Leaf
  | [] => 0
  | .dictionary named :: others => leavesNamed named + leavesAll others
  | e :: es => e.leaves + leavesAll es

def leavesNamed : List (Expr × Expr) → Multiset Leaf
  | [] => 0
  | (key, value) :: named => Leaf.ofKey key + value.leaves + leavesNamed named

end

end Expr

/-! ## Operands -/

namespace Token

/-- The leaf that the token is, if it is a word or a literal. -/
def leaf? (t : Token) : Option Leaf :=
  match t.kind with
  | .identifier => some (.word t.text)
  | .keyword =>
    if t.text = "True" then some (.constant (.boolean true))
    else if t.text = "False" then some (.constant (.boolean false))
    else if t.text = "None" then some .nothing
    else none
  | .number =>
    match Literal.numberValue? t.text with
    | some x => some (.constant (.number x))
    | none => some (.malformed t.text)
  | .apostropheString | .quotedString | .longString =>
    some (.constant (.text (Literal.textValue t.kind t.text)))
  | .unknown | .operator => none

/-- Brackets and separators are no operands. -/
theorem Spells.leaf?_eq_none {t : Token} {text : String} (h : t.Spells text)
    (hpiece : piece? text.toList = some (.lexeme .operator text.toList, [])) : t.leaf? = none := by
  rw [leaf?, h.kind_eq hpiece]

/-- Nor is what stands between operands. -/
theorem leaf?_eq_none_of_ranked {t : Token} {r : Operator × Rank} (h : t.ranked? = some r) :
    t.leaf? = none := by
  unfold ranked? at h
  split at h
  · next hkind =>
    rcases hkind with hkind | hkind
    · rw [leaf?, hkind]
    · have hword : ∀ r ∈ ranking, r.1.symbol ≠ "True" ∧ r.1.symbol ≠ "False"
          ∧ r.1.symbol ≠ "None" := by decide
      have hfound := List.find?_some h
      have hsymbol : r.1.symbol = t.text := beq_iff_eq.mp hfound
      obtain ⟨htrue, hfalse, hnone⟩ := hword r (List.mem_of_find?_eq_some h)
      rw [hsymbol] at htrue hfalse hnone
      simp only [leaf?, hkind, if_neg htrue, if_neg hfalse, if_neg hnone]
  · cases h

end Token

/-- **The operands among the tokens**, as often as they occur. -/
def operands (ts : List Token) : Multiset Leaf := (ts.filterMap Token.leaf? : List Leaf)

@[simp] theorem operands_nil : operands [] = 0 := rfl

@[simp] theorem operands_append (as bs : List Token) :
    operands (as ++ bs) = operands as + operands bs := by
  rw [operands, List.filterMap_append, ← Multiset.coe_add]
  rfl

theorem operands_cons (t : Token) (ts : List Token) :
    operands (t :: ts) = operands [t] + operands ts := operands_append [t] ts

theorem operands_singleton_of_some {t : Token} {leaf : Leaf} (h : t.leaf? = some leaf) :
    operands [t] = {leaf} := by
  rw [operands, List.filterMap_cons, h]
  rfl

theorem operands_cons_of_none {t : Token} (h : t.leaf? = none) (ts : List Token) :
    operands (t :: ts) = operands ts := by
  rw [operands, List.filterMap_cons, h]
  rfl

/-- What stands between brackets or other tokens that are no operands. -/
theorem operands_bracketed {o c : Token} {ts : List Token} (ho : o.leaf? = none)
    (hc : c.leaf? = none) : operands (o :: (ts ++ [c])) = operands ts := by
  rw [operands_cons_of_none ho, operands_append, operands_cons_of_none hc, operands_nil, add_zero]

/-! ## Keeping -/

/-- **The leaves are the operands of the tokens but for those lost**, and nothings. -/
def Kept (leaves : Multiset Leaf) (lost ts : List Token) : Prop :=
  ∃ k, leaves + operands lost = operands ts + Multiset.replicate k .nothing

namespace Kept

variable {l l' : Multiset Leaf} {lost lost' ts ts' : List Token}

theorem nil : Kept 0 [] [] := ⟨0, rfl⟩

/-- For what is absent there is a nothing. -/
theorem absent : Kept {.nothing} [] [] := ⟨1, rfl⟩

theorem operand {t : Token} {leaf : Leaf} (h : t.leaf? = some leaf) : Kept {leaf} [] [t] :=
  ⟨0, by rw [operands_singleton_of_some h]; rfl⟩

theorem append (h : Kept l lost ts) (h' : Kept l' lost' ts') :
    Kept (l + l') (lost ++ lost') (ts ++ ts') := by
  obtain ⟨k, hk⟩ := h
  obtain ⟨k', hk'⟩ := h'
  refine ⟨k + k', ?_⟩
  rw [operands_append, operands_append, add_add_add_comm, hk, hk', add_add_add_comm,
    Multiset.replicate_add]

/-- Only the operands among the tokens count. -/
theorem congr (h : Kept l lost ts) (hts : operands ts = operands ts') : Kept l lost ts' := by
  obtain ⟨k, hk⟩ := h
  exact ⟨k, by rw [hk, hts]⟩

/-- More tokens that are lost. -/
theorem lose (h : Kept l lost ts) (beyond : List Token) :
    Kept l (beyond ++ lost) (ts ++ beyond) := by
  obtain ⟨k, hk⟩ := h
  refine ⟨k, ?_⟩
  rw [operands_append, operands_append, add_left_comm, hk, ← add_assoc,
    add_comm (operands beyond)]

end Kept

end ScriptReader

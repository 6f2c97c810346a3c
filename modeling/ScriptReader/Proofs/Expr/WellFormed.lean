import ScriptReader.Proofs.Expr.Built
import ScriptReader.Proofs.Expr.Sides
import ScriptReader.Proofs.Literal.Unsigned

/-!
# Proofs/Expr/WellFormed — the expressions that are read are well formed

`Expr.WellFormed` lists what an interpreter may rely on, at every depth of an expression.  Each rule
of reading makes a well-formed expression of well-formed parts (`Expr.built_wellFormed`); so
whatever is read from a phrase of a scanned text is well formed (`Expr.wellFormed_read`).
-/

namespace ScriptReader

namespace Expr

/-! ## Well-formed expressions -/

/-- The expression is read from one of the phrases of a text, `Part`, and this phrase uses the
operator behind a complete operand, or where none is complete. -/
def IsUse (Part : Phrase → Prop) (op : Operator) (afterOperand : Bool) (e : Expr) : Prop :=
  ∃ p lookup, Part p ∧ read p lookup = .ok e ∧ p.Uses op afterOperand

/-- **The expression is well formed**, at every depth; `Part` tells the phrases of the text that it
is read from. -/
inductive WellFormed (Part : Phrase → Prop) : Expr → Prop
  | nothing : WellFormed Part .nothing
  | boolean (b : Bool) : WellFormed Part (.constant (.boolean b))
  | text (s : String) : WellFormed Part (.text s)
  | number {x : Binary64} (hx : x.IsUnsigned) : WellFormed Part (.constant (.number x))
  | name (identifier : String) (lookup : Lookup) : WellFormed Part (.name identifier lookup)
  | array {items : List Expr} (hitems : ∀ e ∈ items, WellFormed Part e) :
      WellFormed Part (.array items)
  | dictionary {entries : List (Expr × Expr)} (hkeys : ∀ entry ∈ entries, WellFormed Part entry.1)
      (hvalues : ∀ entry ∈ entries, WellFormed Part entry.2) : WellFormed Part (.dictionary entries)
  /-- Signs and negation may do without a left operand, where no operand is complete. -/
  | unary {op : Operator} {operand : Expr} (hop : op ∈ [Operator.plus, .minus, .not])
      (huse : IsUse Part op false (.unary op operand)) (h : WellFormed Part operand) :
      WellFormed Part (.unary op operand)
  /-- Behind a complete operand there is a left operand.  Negation never has one, and brackets are
  no operators.  A slice has two bounds or more. -/
  | binary {op : Operator} {left right : Expr}
      (hop : op ∉ [Operator.not, .call, .array, .dictionary, .parenthesis])
      (huse : IsUse Part op true (.binary op left right))
      (hslice : op = .slice → ∃ items, right = .array items ∧ 2 ≤ items.length)
      (hleft : WellFormed Part left) (hright : WellFormed Part right) :
      WellFormed Part (.binary op left right)
  | call {callee : Expr} {arguments : List Expr} (hargs : IsArguments arguments)
      (hcallee : WellFormed Part callee) (h : ∀ e ∈ arguments, WellFormed Part e) :
      WellFormed Part (.call callee arguments)
  | builtIn {function : BuiltIn} {arguments : List Expr} (hargs : IsArguments arguments)
      (h : ∀ e ∈ arguments, WellFormed Part e) : WellFormed Part (.builtIn function arguments)

variable {Part : Phrase → Prop} (hpart : Phrase.AreParts Part)

/-! ## Names and literals -/

theorem wellFormed_ofToken {t : Token} (ht : t.IsLexeme) (p : Phrase) (lookup : Lookup) :
    Yields (WellFormed Part) (ofToken t p lookup) := by
  unfold ofToken
  split
  · repeat' split
    · exact .ok (.boolean true)
    · exact .ok (.boolean false)
    · exact .ok .nothing
    · exact .refuse
  · exact .ok (.name _ _)
  · exact .ok (.text _)
  · exact .ok (.text _)
  · exact .ok (.text _)
  · next hkind =>
    split
    · next hx => exact .ok (.number (ht.isUnsigned_numberValue? hkind hx))
    · exact .refuse
  · exact .refuse
  · exact .refuse

include hpart

theorem wellFormed_ofOperand {p : Phrase} (hp : Part p) (lookup : Lookup) :
    Yields (WellFormed Part) (ofOperand p lookup) := by
  unfold ofOperand
  split
  · exact .refuse
  · next t ht =>
    have hmem : t ∈ p.tokens := ht ▸ List.mem_singleton_self t
    exact wellFormed_ofToken (hpart.isScanned hp t hmem) p lookup
  · exact .refuse

/-! ## Rules -/

/-- **Every rule preserves that expressions are well formed.** -/
theorem built_wellFormed : Built Part fun _ => WellFormed Part where
  parts := hpart
  nothing _ := .nothing
  text _ s := .text s
  operand hp lookup := wellFormed_ofOperand hpart hp lookup
  array hitems := .array hitems
  dictionary hkeys hvalues := .dictionary hkeys hvalues
  unary hp hread hop h := .unary hop ⟨_, _, hp, hread, uses_of_unary hread⟩ h
  binary hp hread hop hslice hleft hright :=
    .binary hop ⟨_, _, hp, hread, uses_of_binary hread⟩ hslice hleft hright
  call hargs hcallee h := .call hargs hcallee h
  builtIn hargs h := .builtIn hargs h

/-- **Whatever is read from a phrase of a scanned text is well formed.** -/
theorem wellFormed_read {p : Phrase} (hp : Part p) (lookup : Lookup) :
    Yields (WellFormed Part) (read p lookup) :=
  (built_wellFormed hpart).read hp lookup

/-! ## Targets -/

/-- The expression is a name, or a member of something. -/
def IsPlace (e : Expr) : Prop :=
  (∃ identifier lookup, e = .name identifier lookup) ∨ ∃ left right, e = .binary .member left right

end Expr

end ScriptReader

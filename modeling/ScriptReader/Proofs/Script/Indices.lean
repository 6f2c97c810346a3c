import ScriptReader.Proofs.Script.Built

/-!
# Proofs/Script/Indices — how what stands between square brackets is looked up

An index is read with the look-up that the whole expression is read with, so that it differs from
what its brackets hold by value in the look-up of one name at most (`Expr.ReadsIndex`).  Which
look-up that is, its place tells: the one of the expression that it is the right end of, which is
no value on the left of an operator that assigns, where something is called, and in a target.  This
holds of every index in a script, at every depth (`Script.indices_read`).
-/

namespace ScriptReader

namespace Expr

/-! ## Indices as they are read -/

/-- **An index, looked up in this way, is read from a phrase of the text.**  What stands before the
brackets is read by value, and so is what stands between them, but for the look-up of the name at
its right end. -/
structure ReadsIndex (Part : Phrase → Prop) (lookup : Lookup) (l r : Expr) (left inner : Phrase)
    (byValue : Expr) : Prop where
  part : ∃ p o c beyond, Part p ∧ p.tokens = left.tokens ++ o :: (inner.tokens ++ c :: beyond)
    ∧ o.text = Bracket.square.openerText ∧ c.text = Bracket.square.closerText
  left : Part left ∧ read left .value = .ok l
  inner : Part inner ∧ read inner .value = .ok byValue
  rebound : r = byValue.rebound lookup
  eq_iff : r = byValue ↔ lookup = .value ∨ byValue.endsInName = false

/-- **Every index in the expression is read**, where the expression is looked up in the given
way. -/
inductive IndicesRead (Part : Phrase → Prop) : Lookup → Expr → Prop
  | constant (lookup : Lookup) (c : Constant) : IndicesRead Part lookup (.constant c)
  | name (lookup : Lookup) (identifier : String) : IndicesRead Part lookup (.name identifier lookup)
  | array {lookup : Lookup} {items : List Expr} (hitems : ∀ e ∈ items, IndicesRead Part .value e) :
      IndicesRead Part lookup (.array items)
  | dictionary {lookup : Lookup} {entries : List (Expr × Expr)}
      (hkeys : ∀ entry ∈ entries, IndicesRead Part .value entry.1)
      (hvalues : ∀ entry ∈ entries, IndicesRead Part .value entry.2) :
      IndicesRead Part lookup (.dictionary entries)
  | unary {lookup : Lookup} {op : Operator} {operand : Expr}
      (h : IndicesRead Part .value operand) : IndicesRead Part lookup (.unary op operand)
  | binary {lookup : Lookup} {op : Operator} {l r : Expr}
      (hindex : op = .index → ∃ left inner byValue, ReadsIndex Part lookup l r left inner byValue)
      (hleft : IndicesRead Part (if op.assigns then .reference else .value) l)
      (hright : IndicesRead Part lookup r) : IndicesRead Part lookup (.binary op l r)
  | call {lookup : Lookup} {callee : Expr} {arguments : List Expr}
      (hcallee : IndicesRead Part .reference callee)
      (h : ∀ e ∈ arguments, IndicesRead Part .value e) :
      IndicesRead Part lookup (.call callee arguments)
  | builtIn {lookup : Lookup} {function : BuiltIn} {arguments : List Expr}
      (h : ∀ e ∈ arguments, IndicesRead Part .value e) :
      IndicesRead Part lookup (.builtIn function arguments)

variable {Part : Phrase → Prop} (hpart : Phrase.AreParts Part)
include hpart

theorem exists_readsIndex_of_read {p : Phrase} {lookup : Lookup} {l r : Expr} (hp : Part p)
    (h : read p lookup = .ok (.binary .index l r)) :
    ∃ left inner byValue, ReadsIndex Part lookup l r left inner byValue := by
  obtain ⟨q, d, hq, hd, hop, -, -, hl, hr⟩ := operands_of_read h (by decide)
  have hqpart := hpart.unwrap hp hq
  obtain ⟨hleft, hright⟩ := hpart.lowest hqpart hd
  obtain ⟨byValue, hvalue, hrebound, hiff⟩ := exists_of_read_rebound hr
  refine ⟨d.left, d.right, byValue, ?_, ⟨hleft, hl⟩, ⟨hright, hvalue⟩, hrebound, hiff⟩
  cases Phrase.divides_of_lowest hd with
  | operator ht =>
    rw [hop] at ht
    exact absurd (by decide) (op_notMem_of_ranked ht)
  | suffix _ ho hc htokens => exact ⟨q, _, _, _, hqpart, htokens, ho, hc⟩
  | call hcall => cases hop.symm.trans hcall
  | container hcontainer =>
    rcases hcontainer with hcontainer | hcontainer
    all_goals cases hop.symm.trans hcontainer

/-- Every rule preserves that indices are read. -/
theorem built_indicesRead : Built Part (IndicesRead Part) where
  parts := hpart
  nothing lookup := .constant lookup .none
  text lookup s := .constant lookup (.text s)
  operand _ lookup e he := by
    rcases cases_of_ofOperand he with ⟨c, rfl⟩ | ⟨identifier, rfl⟩
    · exact .constant lookup c
    · exact .name lookup identifier
  array hitems := .array hitems
  dictionary hkeys hvalues := .dictionary hkeys hvalues
  unary _ _ _ h := .unary h
  binary hp hread _ _ hleft hright :=
    .binary (fun hop => exists_readsIndex_of_read hpart hp (hop ▸ hread)) hleft hright
  call _ hcallee h := .call hcallee h
  builtIn _ h := .builtIn h

end Expr

/-! ## Scripts -/

/-- **Every index of a script is read by value, but for the name at its right end**, which is looked
up as the place of the index asks for. -/
theorem Script.indices_read {source : String} {script : Script}
    (h : Script.read source = .ok script) :
    ∀ s ∈ script, s.Each (Expr.IndicesRead (Source.ofString source).HasPhrase) := by
  have hpart := Source.areParts_hasPhrase (.ofString source)
  exact (built_each hpart (Expr.built_indicesRead hpart).read).read script h

/-- In `x.(a[i]) = b[i]` one index is in a target and the other one is not. -/
theorem Script.indices_read_target :
    let script : Script := [.assign
      (.binary .member (.name "x" .value)
        (.binary .index (.name "a" .value) (.name "i" .binding))) []
      (.binary .index (.name "b" .value) (.name "i" .value))]
    Script.read "x.(a[i]) = b[i]" = .ok script
      ∧ ∀ s ∈ script, s.Each
        (Expr.IndicesRead (Source.ofString "x.(a[i]) = b[i]").HasPhrase) := by
  intro script
  have hread : Script.read "x.(a[i]) = b[i]" = .ok script := by
    rw [Script.read_eq]
    with_unfolding_all rfl
  exact ⟨hread, Script.indices_read hread⟩

/-- What the brackets of `a[i] += 1` hold is `i` by value, and it is read as a reference. -/
theorem Script.index_read_by_reference :
    (∃ x, Script.read "a[i] += 1" = .ok [.expression (.binary .plusAssign
        (.binary .index (.name "a" .value) (.name "i" .reference)) (.constant (.number x)))])
      ∧ ((Phrase.whole (Source.ofString "a[i] += 1").scan.tokens).slice 2 3).tokens
        = [⟨.identifier, "i", 1⟩]
      ∧ Expr.read ((Phrase.whole (Source.ofString "a[i] += 1").scan.tokens).slice 2 3) .value
        = .ok (.name "i" .value)
      ∧ Expr.name "i" .value ≠ .name "i" .reference :=
  ⟨⟨_, by rw [Script.read_eq]; with_unfolding_all rfl⟩, by decide +kernel,
    by with_unfolding_all rfl, nofun⟩

end ScriptReader

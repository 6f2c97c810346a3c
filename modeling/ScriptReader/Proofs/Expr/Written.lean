import ScriptReader.Proofs.Expr.Rows
import ScriptReader.Proofs.Phrase.Joined
import ScriptReader.Expr.Reading

/-!
# Proofs/Expr/Written — the ways of writing an expression down

`Written k e ts` says that the tokens write the expression `e` with nothing looser than level `k`
outside parentheses.  An operand may stand bare if its rank allows it, and in parentheses at any
rank; on the side that associativity favours it may have the rank of its operator, on the other side
only a higher one.  How names are looked up is not written: it follows from where they stand
(`Expr.placed`).  Whatever is written is a row that completes an operand: `Written.row`.
-/

namespace ScriptReader

/-! ## The table of ranks -/

namespace Operator

/-- The level of an operator behind an operand: the lower, the looser. -/
def level : Operator → Nat
  | plusAssign | minusAssign | multiplyAssign | divideAssign | moduloAssign => 0
  | or => 1
  | and => 2
  | not => 3
  | within => 4
  | equal | notEqual => 5
  | less | greater | lessEqual | greaterEqual => 6
  | plus | minus => 9
  | multiply | divide | modulo => 10
  | member => 13
  | call | index | slice => 14
  | array | dictionary | parenthesis => highestLevel - 1

/-- The level of an operator without a left operand. -/
def prefixLevel : Operator → Nat
  | not => 3
  | _ => 11

/-- Does the operator stand between two operands? -/
def isInfix (op : Operator) : Bool := op.level < 14 && op != not

/-- How loose the left operand may be without parentheses. -/
def leftLevel (op : Operator) : Nat := if op.assigns then op.level + 1 else op.level

/-- How loose the right operand may be without parentheses. -/
def rightLevel (op : Operator) : Nat := if op.assigns then op.level else op.level + 1

end Operator

theorem find?_ranking : ∀ op ∈ Operator.all, op.level < 14 →
    ranking.find? (fun r => r.1.symbol == op.symbol) = some (op, .ofLevel op.level) := by decide

theorem isPlain_of_spells_symbol {op : Operator} {t : Token} (ht : t.Spells op.symbol) :
    t.IsPlain :=
  ht.isPlain (by cases op <;> rfl) (by cases op <;> rfl)

/-- **A token that spells an operator is ranked as that operator.** -/
theorem ranked?_of_spells {op : Operator} {t : Token} (hop : op.level < 14)
    (ht : t.Spells op.symbol) : t.ranked? = some (op, .ofLevel op.level) := by
  have hpiece : ∃ kind, (kind = .operator ∨ kind = .keyword)
      ∧ piece? op.symbol.toList = some (.lexeme kind op.symbol.toList, []) :=
    (by decide : ∀ op ∈ Operator.all, op.level < 14 →
      ∃ kind ∈ Kind.all, (kind = .operator ∨ kind = .keyword)
        ∧ piece? op.symbol.toList = some (.lexeme kind op.symbol.toList, []))
      op (Operator.mem_all op) hop |>.imp fun _ h => h.2
  obtain ⟨kind, hkind, hpiece⟩ := hpiece
  rw [Token.ranked?, ht.kind_eq hpiece, if_pos hkind, ht.text_eq]
  exact find?_ranking op (Operator.mem_all op) hop

/-! ## Where names stand -/

mutual

/-- The expression with its names looked up as their places ask for.  What an operator assigns to
and what is called is a reference, the right operand is looked up as the whole is, and anything else
by value. -/
def Expr.placed (lookup : Lookup) : Expr → Expr
  | .constant c => .constant c
  | .name identifier _ => .name identifier lookup
  | .array items => .array (Expr.placedAll items)
  | .dictionary entries => .dictionary (Expr.placedEntries entries)
  | .unary op operand => .unary op (operand.placed .value)
  | .binary op left right =>
    .binary op (left.placed (if op.assigns then .reference else .value)) (right.placed lookup)
  | .call callee arguments => .call (callee.placed .reference) (Expr.placedAll arguments)
  | .builtIn function arguments => .builtIn function (Expr.placedAll arguments)

def Expr.placedAll : List Expr → List Expr
  | [] => []
  | e :: es => e.placed .value :: Expr.placedAll es

def Expr.placedEntries : List (Expr × Expr) → List (Expr × Expr)
  | [] => []
  | (key, value) :: entries =>
    (key.placed .value, value.placed .value) :: Expr.placedEntries entries

end

theorem Expr.placedAll_eq_map (es : List Expr) : placedAll es = es.map (·.placed .value) := by
  induction es with
  | nil => rfl
  | cons e es ih => rw [placedAll, ih, List.map_cons]

/-! ## Written expressions -/

/-- The key and the value of a dictionary's entry, and how they are written. -/
structure WrittenEntry where
  key : Expr
  keyTokens : List Token
  colon : Token
  value : Expr
  valueTokens : List Token

/-- An argument of a call, and how it is written: behind its name and an equals sign if it is
named. -/
structure WrittenArgument where
  named? : Option (Token × Token)
  value : Expr
  valueTokens : List Token

def WrittenEntry.tokens (x : WrittenEntry) : List Token :=
  x.keyTokens ++ x.colon :: x.valueTokens

def WrittenArgument.tokens (x : WrittenArgument) : List Token :=
  match x.named? with
  | some (key, equals) => key :: equals :: x.valueTokens
  | none => x.valueTokens

/-- The entry of a dictionary that the argument becomes if it is named. -/
def WrittenArgument.entry? (x : WrittenArgument) : Option (Expr × Expr) :=
  x.named?.map fun (key, _) => (.text key.text, x.value)

/-- The argument itself if it is not named. -/
def WrittenArgument.other? (x : WrittenArgument) : Option Expr :=
  if x.named?.isNone then some x.value else none

/-- The arguments of a call: the named ones in a dictionary, then the others. -/
def Expr.arguments (xs : List WrittenArgument) : List Expr :=
  .dictionary (xs.filterMap WrittenArgument.entry?) :: xs.filterMap WrittenArgument.other?

/-- The token is a word that is not reserved. -/
structure Token.IsIdentifier (t : Token) : Prop where
  isLexeme : t.IsLexeme
  kind_eq : t.kind = .identifier

namespace Token.IsIdentifier

variable {t : Token} (h : t.IsIdentifier)
include h

theorem isPlain : t.IsPlain :=
  h.isLexeme.isPlain (by rw [h.kind_eq]; decide)

theorem ranked?_eq_none : t.ranked? = none := by
  rw [ranked?, h.kind_eq]
  rfl

/-- A word is none of the texts that operators have. -/
theorem hides {text : String}
    (htext : piece? text.toList = some (.lexeme .operator text.toList, [])) : Hides text [t] :=
  .token h.isPlain (h.isLexeme.text_ne (by rw [h.kind_eq]; decide) htext)

end Token.IsIdentifier

/-- The name of a built-in function is a word. -/
theorem isIdentifier_of_spells_builtIn {t : Token} {function : BuiltIn}
    (ht : t.Spells function.name) : t.IsIdentifier :=
  ⟨ht.isLexeme, ht.kind_eq (by cases function <;> rfl)⟩

/-- What stands before the value of a named argument. -/
def WrittenArgument.IsNamed (x : WrittenArgument) : Prop :=
  ∀ key equals, x.named? = some (key, equals) → key.IsIdentifier ∧ equals.Spells "="

/-- The brackets around something. -/
structure Encloses (b : Bracket) (o c : Token) : Prop where
  opener : o.Spells b.openerText
  closer : c.Spells b.closerText

/-- **The tokens write the expression**, with nothing looser than level `k` outside parentheses. -/
inductive Written : Nat → Expr → List Token → Prop
  | name {k : Nat} {t : Token} {lookup : Lookup} (ht : t.IsIdentifier) :
      Written k (.name t.text lookup) [t]
  | nothing {k : Nat} {t : Token} (ht : t.Spells "None") : Written k .nothing [t]
  | boolean {k : Nat} {t : Token} (b : Bool) (ht : t.Spells (if b then "True" else "False")) :
      Written k (.constant (.boolean b)) [t]
  | number {k : Nat} {t : Token} {x : Binary64} (ht : t.IsLexeme) (hkind : t.kind = .number)
      (hx : Literal.numberValue? t.text = some x) : Written k (.constant (.number x)) [t]
  | text {k : Nat} {t : Token} (ht : t.IsLexeme)
      (hkind : t.kind ∈ [Kind.apostropheString, .quotedString, .longString]) :
      Written k (.text (Literal.textValue t.kind t.text)) [t]
  | parentheses {k : Nat} {e : Expr} {o c : Token} {ts : List Token} (hb : Encloses .round o c)
      (h : Written 0 e ts) : Written k e (o :: (ts ++ [c]))
  | unary {k : Nat} {op : Operator} {e : Expr} {t : Token} {ts : List Token}
      (hop : Expr.isSign op) (hk : k ≤ op.prefixLevel) (ht : t.Spells op.symbol)
      (h : Written op.prefixLevel e ts) : Written k (.unary op e) (t :: ts)
  | binary {k : Nat} {op : Operator} {l r : Expr} {t : Token} {ls rs : List Token}
      (hop : op.isInfix) (hk : k ≤ op.level) (ht : t.Spells op.symbol)
      (hl : Written op.leftLevel l ls) (hr : Written op.rightLevel r rs) :
      Written k (.binary op l r) (ls ++ t :: rs)
  | index {k : Nat} {e key : Expr} {o c : Token} {es ks : List Token}
      (hk : k ≤ Operator.index.level) (he : Written Operator.index.level e es)
      (hb : Encloses .square o c) (hkey : Written 0 key ks) :
      Written k (.binary .index e key) (es ++ o :: (ks ++ [c]))
  | slice {k : Nat} {e : Expr} {o c : Token} {es bs : List Token}
      {bounds : List (Expr × List Token)} (hk : k ≤ Operator.slice.level)
      (he : Written Operator.slice.level e es) (hb : Encloses .square o c)
      (htwo : 2 ≤ bounds.length) (hbounds : ∀ x ∈ bounds, Written 0 x.1 x.2)
      (hj : Joined ":" (bounds.map (·.2)) bs) :
      Written k (.binary .slice e (.array (bounds.map (·.1)))) (es ++ o :: (bs ++ [c]))
  | array {k : Nat} {o c : Token} {ts : List Token} {items : List (Expr × List Token)}
      (hk : k ≤ Operator.array.level) (hb : Encloses .square o c)
      (hitems : ∀ x ∈ items, Written 0 x.1 x.2) (hj : Joined "," (items.map (·.2)) ts) :
      Written k (.array (items.map (·.1))) (o :: (ts ++ [c]))
  | dictionary {k : Nat} {o c : Token} {ts : List Token} {entries : List WrittenEntry}
      (hk : k ≤ Operator.dictionary.level) (hb : Encloses .curly o c)
      (hkeys : ∀ x ∈ entries, Written 0 x.key x.keyTokens)
      (hvalues : ∀ x ∈ entries, Written 0 x.value x.valueTokens)
      (hcolons : ∀ x ∈ entries, x.colon.Spells ":")
      (hj : Joined "," (entries.map (·.tokens)) ts) :
      Written k (.dictionary (entries.map fun x => (x.key, x.value))) (o :: (ts ++ [c]))
  | call {k : Nat} {callee : Expr} {o c : Token} {fs ts : List Token} {xs : List WrittenArgument}
      (hk : k ≤ Operator.call.level) (hcallee : Written Operator.call.level callee fs)
      (hbare : ∀ t, fs = [t] → BuiltIn.ofName? t.text = none) (hb : Encloses .round o c)
      (hxs : ∀ x ∈ xs, Written 0 x.value x.valueTokens) (hnamed : ∀ x ∈ xs, x.IsNamed)
      (hj : Joined "," (xs.map (·.tokens)) ts) :
      Written k (.call callee (Expr.arguments xs)) (fs ++ o :: (ts ++ [c]))
  | builtIn {k : Nat} {function : BuiltIn} {t o c : Token} {ts : List Token}
      {xs : List WrittenArgument} (hk : k ≤ Operator.call.level) (ht : t.Spells function.name)
      (hb : Encloses .round o c) (hxs : ∀ x ∈ xs, Written 0 x.value x.valueTokens)
      (hnamed : ∀ x ∈ xs, x.IsNamed) (hj : Joined "," (xs.map (·.tokens)) ts) :
      Written k (.builtIn function (Expr.arguments xs)) (t :: o :: (ts ++ [c]))

end ScriptReader

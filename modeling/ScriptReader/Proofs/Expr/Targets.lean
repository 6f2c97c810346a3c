import ScriptReader.Proofs.Expr.LookedUp
import ScriptReader.Proofs.Expr.Operands
import ScriptReader.Proofs.Script.Sessions

/-!
# Proofs/Expr/Targets — what can be bound or assigned to

A target is one identifier, or a member access, where anything may stand right of the dot
(`Phrase.WritesTarget`).  So a target that is read names a place only if what stands right of the
dot is one identifier too, parentheses around it not counted (`Expr.readTarget_iff`).
-/

namespace ScriptReader

/-! ## Targets as they are written -/

namespace Phrase

/-- Without the parentheses around it, the phrase is one identifier. -/
def IsWord (p : Phrase) (t : Token) : Prop :=
  ∃ q, p.unwrap = .ok q ∧ q.tokens = [t] ∧ t.kind = .identifier

/-- Without the parentheses around it, the phrase is divided at a dot, and neither side of the dot
is empty. -/
def IsAccess (p left right : Phrase) : Prop :=
  ∃ q, p.unwrap = .ok q ∧ q.lowest = .ok (some ⟨.member, left, right⟩)
    ∧ left.isEmpty = false ∧ right.isEmpty = false

/-- **The phrase is an identifier, or a member access ending in one.** -/
def EndsInWord (p : Phrase) : Prop :=
  (∃ t, p.IsWord t) ∨ ∃ left right t, p.IsAccess left right ∧ right.IsWord t

/-- **What a phrase writes to be bound or assigned to.**  What is right of a dot is looked up as the
whole is. -/
inductive WritesTarget (p : Phrase) (lookup : Lookup) : Expr → Prop
  | word {t : Token} (h : p.IsWord t) : WritesTarget p lookup (.name t.text lookup)
  | access {left right : Phrase} {l r : Expr} (h : p.IsAccess left right)
      (hl : Expr.read left .value = .ok l) (hr : Expr.read right lookup = .ok r) :
      WritesTarget p lookup (.binary .member l r)

end Phrase

/-- **The expression names a place**: it is a name with this look-up, or a member with such a
name. -/
inductive Expr.NamesPlace (lookup : Lookup) : Expr → Prop
  | name (identifier : String) : NamesPlace lookup (.name identifier lookup)
  | member (e : Expr) (identifier : String) :
      NamesPlace lookup (.binary .member e (.name identifier lookup))

/-! ## Words -/

namespace Phrase

variable {p : Phrase} {t : Token}

theorem IsScanned.of_lowest {q : Phrase} {d : Division} (hp : p.IsScanned) (hq : p.unwrap = .ok q)
    (hd : q.lowest = .ok (some d)) : d.left.IsScanned ∧ d.right.IsScanned :=
  Expr.isScanned_of_lowest (operands_unwrap hp hq).1 hd

/-- A word is divided no further. -/
theorem IsWord.lowest_unwrap (h : p.IsWord t) (hp : p.IsScanned) :
    ∃ q, p.unwrap = .ok q ∧ q.lowest = .ok none ∧ q.tokens = [t] := by
  obtain ⟨q, hq, htokens, hkind⟩ := h
  have hlexeme : t.IsLexeme := (operands_unwrap hp hq).1 t (by rw [htokens]; simp)
  have hplain : t.IsPlain := hlexeme.isPlain (by rw [hkind]; decide)
  have hranked : t.ranked? = none :=
    Token.IsLexeme.ranked?_eq_none (by rw [hkind]; decide) (by rw [hkind]; decide)
  exact ⟨q, hq, lowest_token htokens hplain hranked, htokens⟩

/-- A word is no member access. -/
theorem IsWord.not_isAccess (h : p.IsWord t) (hp : p.IsScanned) (left right : Phrase) :
    ¬p.IsAccess left right := by
  rintro ⟨q, hq, hd, -⟩
  obtain ⟨q', hq', hnone, -⟩ := h.lowest_unwrap hp
  obtain rfl := Except.ok.inj (hq.symm.trans hq')
  cases hd.symm.trans hnone

end Phrase

namespace Expr

variable {p : Phrase} {lookup : Lookup} {e : Expr}

/-- A word is read as its name. -/
theorem read_word {t : Token} (h : p.IsWord t) (hp : p.IsScanned) (lookup : Lookup) :
    read p lookup = .ok (.name t.text lookup) := by
  obtain ⟨q, hq, hnone, htokens⟩ := h.lowest_unwrap hp
  obtain ⟨q', hq', htokens', hkind⟩ := h
  have hne : p.tokens ≠ [] := by
    have hle := Phrase.size_unwrap_le hq
    rw [Phrase.size, htokens] at hle
    exact List.ne_nil_of_length_pos hle
  rw [read_of_ne_nil hne, hq]
  refine (readUnwrapped_of_undivided hnone lookup).trans ?_
  rw [ofOperand]
  simp only [htokens, ofToken, hkind]

/-- **What is read as a name is a word.** -/
theorem isWord_of_read {identifier : String} {lookup' : Lookup}
    (h : read p lookup = .ok (.name identifier lookup')) :
    ∃ t, p.IsWord t ∧ t.text = identifier ∧ lookup' = lookup := by
  cases readBy_of_read h with
  | nothing _ he => cases he
  | @operand q hq _ h =>
    unfold ofOperand at h
    split at h
    · cases h
    · next t htokens =>
      unfold ofToken at h
      repeat' split at h
      all_goals cases h
      next hkind => exact ⟨t, ⟨q, hq, htokens, hkind⟩, rfl, rfl⟩
    · cases h
  | brackets _ _ _ he => cases he
  | operator _ _ h =>
    cases h with
    | unary _ _ _ _ he | binary _ _ _ _ _ _ he | slice _ _ _ _ he => cases he

/-! ## Targets -/

theorem readTarget_eq_ok_iff :
    readTarget p lookup = .ok e ↔ read p lookup = .ok e ∧ e.isTarget := by
  constructor
  · intro h
    obtain ⟨e', hread, h⟩ := exists_of_bind_ok h
    split at h
    · next htarget =>
      cases h
      exact ⟨hread, htarget⟩
    · cases h
  · rintro ⟨hread, htarget⟩
    rw [readTarget, hread]
    exact if_pos htarget

theorem writesTarget_of_read (h : read p lookup = .ok e) (htarget : e.isTarget) :
    p.WritesTarget lookup e := by
  cases e with
  | name identifier lookup' =>
    obtain ⟨t, ht, rfl, rfl⟩ := isWord_of_read h
    exact .word ht
  | unary op operand =>
    obtain rfl := beq_iff_eq.mp htarget
    -- no dot does without a left operand
    obtain ⟨q, d, -, -, hsides⟩ := readOperator_of_read h (.unary _ _)
    cases hsides with
    | unary _ _ hsign _ he =>
      rw [← (Expr.unary.inj he).1] at hsign
      cases hsign
    | binary _ _ _ _ _ _ he | slice _ _ _ _ he => cases he
  | binary op l r =>
    obtain rfl := beq_iff_eq.mp htarget
    obtain ⟨q, d, hq, hd, hop, hleft, hright, hl, hr⟩ := operands_of_read h (by decide)
    obtain ⟨op, left, right⟩ := d
    obtain rfl : op = .member := hop
    exact .access ⟨q, hq, hd, hleft, hright⟩ hl hr
  | constant | array | dictionary | call | builtIn => cases htarget

theorem read_of_writesTarget (hp : p.IsScanned) (h : p.WritesTarget lookup e) :
    read p lookup = .ok e ∧ e.isTarget := by
  cases h with
  | word ht => exact ⟨read_word ht hp lookup, rfl⟩
  | access haccess hl hr =>
    obtain ⟨q, hq, hd, hleft, hright⟩ := haccess
    have hmember : Operator.member ∉ [Operator.call, .array, .dictionary, .not, .slice] := by decide
    exact ⟨read_of_operands hq hd hmember hleft hright hl hr, rfl⟩

/-- What is read names a place just if the phrase ends in a word. -/
theorem namesPlace_iff (hp : p.IsScanned) (h : p.WritesTarget lookup e) :
    e.NamesPlace lookup ↔ p.EndsInWord := by
  cases h with
  | word ht => exact ⟨fun _ => .inl ⟨_, ht⟩, fun _ => .name _⟩
  | @access left right l r haccess hl hr =>
    constructor
    · intro hplace
      cases hplace with
      | member _ identifier =>
        obtain ⟨t, ht, -⟩ := isWord_of_read hr
        exact .inr ⟨left, right, t, haccess, ht⟩
    · rintro (⟨t, ht⟩ | ⟨left', right', t, haccess', ht⟩)
      · exact absurd haccess (ht.not_isAccess hp left right)
      · obtain ⟨q, hq, hd, -⟩ := haccess
        obtain ⟨q', hq', hd', -⟩ := haccess'
        obtain rfl := Except.ok.inj (hq.symm.trans hq')
        cases hd.symm.trans hd'
        rw [read_word ht (hp.of_lowest hq hd).2 lookup] at hr
        cases hr
        exact .member _ _

/-- **What is bound or assigned to.**  It is a name that a word writes, or a member whose sides are
read, the right one with the look-up of the whole; and it names a place just if the phrase ends in a
word. -/
theorem readTarget_iff {src : Source} (hp : p.tokens <:+: src.scan.tokens) :
    (readTarget p lookup = .ok e ↔ p.WritesTarget lookup e)
      ∧ (readTarget p lookup = .ok e → (e.NamesPlace lookup ↔ p.EndsInWord)) := by
  have hscanned : p.IsScanned := fun t ht => isLexeme_of_mem_scan (hp.subset ht)
  have hwrites (h : readTarget p lookup = .ok e) : p.WritesTarget lookup e := by
    obtain ⟨hread, htarget⟩ := readTarget_eq_ok_iff.mp h
    exact writesTarget_of_read hread htarget
  exact ⟨⟨hwrites, fun h => readTarget_eq_ok_iff.mpr (read_of_writesTarget hscanned h)⟩,
    fun h => namesPlace_iff hscanned (hwrites h)⟩

/-- In `(a.b) = 3` the target ends in a word, the parentheses around it not counted. -/
theorem readTarget_iff_member :
    let p := (Phrase.whole (Source.ofString "(a.b) = 3").scan.tokens).take 5
    let e : Expr := .binary .member (.name "a" .value) (.name "b" .binding)
    p.tokens <:+: (Source.ofString "(a.b) = 3").scan.tokens
      ∧ readTarget p .binding = .ok e
      ∧ (readTarget p .binding = .ok e ↔ p.WritesTarget .binding e)
      ∧ (readTarget p .binding = .ok e → (e.NamesPlace .binding ↔ p.EndsInWord)) :=
  have hp : ((Phrase.whole (Source.ofString "(a.b) = 3").scan.tokens).take 5).tokens
      <:+: (Source.ofString "(a.b) = 3").scan.tokens :=
    Phrase.tokens_take 5 _ ▸ (List.take_prefix 5 _).isInfix
  ⟨hp, by with_unfolding_all rfl, readTarget_iff hp⟩

/-- A call is what `a.f() = 3` assigns to, and a call names no place. -/
theorem readTarget_call :
    (∃ x, Script.read "a.f() = 3" = .ok [.assign
        (.binary .member (.name "a" .value) (.call (.name "f" .reference) [.dictionary []])) []
        (.constant (.number x))])
      ∧ ((Phrase.whole (Source.ofString "a.f() = 3").scan.tokens).take 5).tokens
        <:+: (Source.ofString "a.f() = 3").scan.tokens
      ∧ readTarget ((Phrase.whole (Source.ofString "a.f() = 3").scan.tokens).take 5) .binding
        = .ok (.binary .member (.name "a" .value) (.call (.name "f" .reference) [.dictionary []]))
      ∧ ¬NamesPlace .binding
        (.binary .member (.name "a" .value) (.call (.name "f" .reference) [.dictionary []])) :=
  ⟨⟨_, by rw [Script.read_eq]; with_unfolding_all rfl⟩,
    Phrase.tokens_take 5 _ ▸ (List.take_prefix 5 _).isInfix,
    by with_unfolding_all rfl, nofun⟩

end Expr

end ScriptReader

import ScriptReader.Proofs.Expr.Written

/-!
# Proofs/Expr/Operands — what is written is a row that completes an operand

`WritesOperand k` says that tokens are an `OperandRow`: whatever stands before them, they complete
an operand, and no operator outside their brackets is looser than level `k`.  Written expressions
are such rows (`Written.row`), so that a phrase is divided where it was put together; and they hide
the marks around them, so that what is put between brackets is found again.
-/

namespace ScriptReader

open ScriptReader.Bracket

/-! ## Words and literals -/

theorem Token.IsLexeme.ranked?_eq_none {t : Token} (ho : t.kind ≠ .operator)
    (hk : t.kind ≠ .keyword) : t.ranked? = none := by
  rw [Token.ranked?, if_neg (fun h => h.elim ho hk)]

theorem OperandRow.ofLexeme {k : Nat} {t : Token} (ht : t.IsLexeme) (ho : t.kind ≠ .operator)
    (hk : t.kind ≠ .keyword) : OperandRow k [[t]] := by
  refine .token (ht.isPlain ho) (Token.IsLexeme.ranked?_eq_none ho hk) fun text hf htext => ?_
  rcases hf with hf | ⟨rfl, -⟩
  · have hop : ∀ s ∈ [",", ":", "=", ":="],
        piece? s.toList = some (.lexeme .operator s.toList, []) := by decide
    exact ho (ht.kind_eq htext (hop text hf))
  · exact hk (ht.kind_eq htext rfl)

/-- The keywords that are operands. -/
def constantWords : List String := ["None", "True", "False"]

theorem isPlain_of_constantWord {t : Token} {text : String} (ht : t.Spells text)
    (htext : text ∈ constantWords) : t.IsPlain :=
  ht.isLexeme.isPlain (by
    rw [ht.kind_eq ((by decide : ∀ s ∈ constantWords,
      piece? s.toList = some (.lexeme .keyword s.toList, [])) text htext)]
    decide)

theorem ranked?_of_constantWord {t : Token} {text : String} (ht : t.Spells text)
    (htext : text ∈ constantWords) : t.ranked? = none := by
  have hnone : ranking.find? (fun r => r.1.symbol == text) = none :=
    (by decide : ∀ s ∈ constantWords, ranking.find? (fun r => r.1.symbol == s) = none) text htext
  rw [Token.ranked?, ht.text_eq, hnone, ite_self]

theorem OperandRow.ofConstantWord {k : Nat} {t : Token} {text : String} (ht : t.Spells text)
    (htext : text ∈ constantWords) : OperandRow k [[t]] := by
  refine .token (isPlain_of_constantWord ht htext) (ranked?_of_constantWord ht htext)
    fun s hf hs => ?_
  have hmem : s ∈ constantWords := by rwa [← hs, ht.text_eq]
  rcases hf with hf | ⟨rfl, -⟩
  · exact (by decide : ∀ s ∈ constantWords, s ∉ [",", ":", "=", ":="]) s hmem hf
  · exact absurd hmem (by decide)

theorem boolean_mem_constantWords (b : Bool) :
    (if b then "True" else "False") ∈ constantWords := by cases b <;> decide

theorem isPlain_of_separator {separator : String} (hs : separator ∈ [",", ":"]) (t : Token)
    (ht : t.Spells separator) : t.IsPlain :=
  ht.isPlain ((by decide : ∀ s ∈ [",", ":"], ofOpenerText? s = none) separator hs)
    ((by decide : ∀ s ∈ [",", ":"], ofCloserText? s = none) separator hs)

/-! ## Brackets -/

theorem interior_bracketed (o c : Token) (ts : List Token) :
    (o :: (ts ++ [c])).dropLast.tail = ts := by
  rw [← List.cons_append, List.dropLast_concat, List.tail_cons]

theorem ofGroup_index {o c : Token} {ts : List Token} (h : findOutside? ":" 0 ts = none) :
    Role.ofGroup .square true (o :: (ts ++ [c])) = .operator .index suffixRank := by
  simp only [Role.ofGroup, interior_bracketed, h]
  rfl

theorem ofGroup_slice {o c : Token} {ts : List Token} (h : (findOutside? ":" 0 ts).isSome) :
    Role.ofGroup .square true (o :: (ts ++ [c])) = .operator .slice suffixRank := by
  simp only [Role.ofGroup, interior_bracketed, h]
  rfl

/-- Of two segments or more, the first ends at a separator. -/
theorem Joined.isSome_findOutside? {separator : String} {segments : List (List Token)}
    {ts : List Token} (h : Joined separator segments ts) (htwo : 2 ≤ segments.length)
    (hseg : ∀ s ∈ segments, IsSegment separator s) :
    (findOutside? separator 0 ts).isSome := by
  cases h with
  | nil => simp at htwo
  | single => simp at htwo
  | cons ts ht h =>
    have hts := hseg ts List.mem_cons_self
    rw [hts.hides.findOutside?_append_cons ht.text_eq]
    rfl

/-! ## Written expressions are rows -/

/-- The tokens of a row that writes an operand. -/
def WritesOperand (k : Nat) (ts : List Token) : Prop :=
  ∃ gs, OperandRow k gs ∧ gs.flatten = ts

namespace WritesOperand

variable {k : Nat} {ts : List Token}

theorem nested (h : WritesOperand k ts) : Nested ts := by
  obtain ⟨gs, hgs, rfl⟩ := h
  exact hgs.nested

theorem ne_nil (h : WritesOperand k ts) : ts ≠ [] := by
  obtain ⟨gs, hgs, rfl⟩ := h
  obtain ⟨g, gs, rfl⟩ := List.exists_cons_of_ne_nil hgs.ne_nil
  have := (hgs.row g List.mem_cons_self).ne_nil
  rw [List.flatten_cons]
  exact fun h => this (List.append_eq_nil_iff.mp h).1

/-- An operand shows no mark, and no `in` that is looser than the operand. -/
theorem hides (h : WritesOperand k ts) {text : String} (ht : Foreign k text) : Hides text ts := by
  obtain ⟨gs, hgs, rfl⟩ := h
  exact hgs.hides ht

theorem isSegment (h : WritesOperand k ts) {separator : String} (hs : separator ∈ [",", ":"]) :
    IsSegment separator ts := by
  have hmark := (by decide : ∀ s ∈ [",", ":"], s ∈ [",", ":", "=", ":="]) separator hs
  exact (h.hides (.inl hmark)).isSegment h.ne_nil

end WritesOperand

theorem WrittenEntry.isSegment {x : WrittenEntry} (hkey : WritesOperand 0 x.keyTokens)
    (hcolon : x.colon.Spells ":") (hvalue : WritesOperand 0 x.valueTokens) :
    IsSegment "," x.tokens := by
  have hrest : Hides "," (x.colon :: x.valueTokens) :=
    (hvalue.hides (.inl (by decide))).cons (hcolon.isPlain rfl rfl)
      (by rw [hcolon.text_eq]; decide)
  exact ((hkey.hides (.inl (by decide))).append hrest).isSegment (by simp)

/-- A word with a value behind an equals sign. -/
theorem isSegment_named {key equals : Token} {ts : List Token} (hkey : key.IsIdentifier)
    (hequals : equals.Spells "=") (hvalue : WritesOperand 0 ts) :
    IsSegment "," (key :: equals :: ts) := by
  have hrest : Hides "," (equals :: ts) :=
    (hvalue.hides (.inl (by decide))).cons (hequals.isPlain rfl rfl)
      (by rw [hequals.text_eq]; decide)
  exact ((hkey.hides rfl).append hrest).isSegment (List.cons_ne_nil _ _)

theorem WrittenArgument.isSegment {x : WrittenArgument} (hnamed : x.IsNamed)
    (hvalue : WritesOperand 0 x.valueTokens) : IsSegment "," x.tokens := by
  obtain ⟨named?, value, ts⟩ := x
  cases named? with
  | none => exact WritesOperand.isSegment hvalue (by decide)
  | some named =>
    obtain ⟨hkey, hequals⟩ := hnamed named.1 named.2 rfl
    exact isSegment_named hkey hequals hvalue

/-- Segments between commas or colons are nested together. -/
theorem Joined.nested_of_isSegment {separator : String} (hs : separator ∈ [",", ":"])
    {segments : List (List Token)} {ts : List Token} (h : Joined separator segments ts)
    (hseg : ∀ s ∈ segments, IsSegment separator s) : Nested ts :=
  h.nested (fun s hs => (hseg s hs).nested) (isPlain_of_separator hs)

section Row

variable {k : Nat} {o c : Token} {ts : List Token}

theorem WritesOperand.identifier {t : Token} (ht : t.IsIdentifier) : WritesOperand k [t] :=
  ⟨_, .ofLexeme ht.isLexeme (by rw [ht.kind_eq]; decide) (by rw [ht.kind_eq]; decide), rfl⟩

theorem WritesOperand.parentheses (hb : Encloses .round o c) (h : Nested ts) :
    WritesOperand k (o :: (ts ++ [c])) :=
  ⟨_, .bracketed hb.opener.text_eq hb.closer.text_eq h rfl rfl nofun,
    List.flatten_singleton⟩

theorem WritesOperand.array (hk : k ≤ containerRank.level) (hb : Encloses .square o c)
    (h : Nested ts) : WritesOperand k (o :: (ts ++ [c])) :=
  ⟨_, .bracketed hb.opener.text_eq hb.closer.text_eq h rfl rfl
    (fun _ _ h => by cases h; exact hk), List.flatten_singleton⟩

theorem WritesOperand.dictionary (hk : k ≤ containerRank.level) (hb : Encloses .curly o c)
    (h : Nested ts) : WritesOperand k (o :: (ts ++ [c])) :=
  ⟨_, .bracketed hb.opener.text_eq hb.closer.text_eq h rfl rfl
    (fun _ _ h => by cases h; exact hk), List.flatten_singleton⟩

/-- Brackets behind an operand. -/
theorem WritesOperand.suffix {b : Bracket} {es : List Token} {op : Operator}
    (hk : k ≤ suffixRank.level) (he : WritesOperand suffixRank.level es) (hb : Encloses b o c)
    (h : Nested ts)
    (hrole : Role.ofGroup b true (o :: (ts ++ [c])) = .operator op suffixRank)
    (hop : (Role.operator op suffixRank).completes = true) :
    WritesOperand k (es ++ o :: (ts ++ [c])) := by
  obtain ⟨gs, hgs, rfl⟩ := he
  exact ⟨_, hgs.suffix hb.opener.text_eq hb.closer.text_eq h hrole hop hk,
    by rw [List.flatten_append, List.flatten_singleton]⟩

end Row

/-- The role of a sign where no operand is complete. -/
theorem ofToken_sign {op : Operator} {t : Token} (hop : Expr.isSign op) (ht : t.Spells op.symbol) :
    Role.ofToken false t = .operator op (.ofLevel op.prefixLevel) := by
  have hlevel : op.level < 14 :=
    (by decide : ∀ op ∈ Operator.all, Expr.isSign op → op.level < 14) op (op.mem_all) hop
  rw [Role.ofToken, ranked?_of_spells hlevel ht]
  cases op <;> first | rfl | cases hop

theorem sign_not_foreign {op : Operator} {k : Nat} (hop : Expr.isSign op) :
    ¬Foreign k op.symbol := by
  have hsigns : ∀ op ∈ Operator.all, Expr.isSign op →
      op.symbol ∉ [",", ":", "=", ":="] ∧ op.symbol ≠ "in" := by decide
  obtain ⟨hmarks, hin⟩ := hsigns op op.mem_all hop
  exact fun h => h.elim hmarks fun h => hin h.1

theorem level_lt_of_isInfix {op : Operator} (h : op.isInfix) : op.level < 14 := by
  rw [Operator.isInfix, Bool.and_eq_true, decide_eq_true_eq] at h
  exact h.1

/-- **Whatever is written is a row that completes an operand**, and none of its operators outside
brackets is looser than it may be. -/
theorem Written.row {k : Nat} {e : Expr} {ts : List Token} (h : Written k e ts) :
    WritesOperand k ts := by
  induction h with
  | name ht => exact .identifier ht
  | nothing ht => exact ⟨_, .ofConstantWord ht (by decide), rfl⟩
  | boolean b ht => exact ⟨_, .ofConstantWord ht (boolean_mem_constantWords b), rfl⟩
  | number ht hkind =>
    exact ⟨_, .ofLexeme ht (by rw [hkind]; decide) (by rw [hkind]; decide), rfl⟩
  | @text k t ht hkind =>
    refine ⟨_, .ofLexeme ht ?_ ?_, rfl⟩
    · rintro heq; rw [heq] at hkind; exact absurd hkind (by decide)
    · rintro heq; rw [heq] at hkind; exact absurd hkind (by decide)
  | parentheses hb _ ih => exact .parentheses hb ih.nested
  | @unary k op e t ts hop hk ht _ ih =>
    obtain ⟨gs, hgs, rfl⟩ := ih
    have hrole := ofToken_sign hop ht
    refine ⟨_, hgs.sign (isPlain_of_spells_symbol ht) hrole ?_ hk hk ?_, rfl⟩
    · cases op <;> first | rfl | cases hop
    · intro text hf
      rw [ht.text_eq]
      rintro rfl
      exact sign_not_foreign hop hf
  | @binary k op l r t ls rs hop hk ht _ _ ihl ihr =>
    obtain ⟨ls, hls, rfl⟩ := ihl
    obtain ⟨rs, hrs, rfl⟩ := ihr
    have hleft : k ≤ op.leftLevel := by rw [Operator.leftLevel]; split <;> omega
    have hright : k ≤ op.rightLevel := by rw [Operator.rightLevel]; split <;> omega
    refine ⟨_, hls.between hrs (isPlain_of_spells_symbol ht)
      (ranked?_of_spells (level_lt_of_isInfix hop) ht) hleft hright hk, ?_⟩
    rw [List.flatten_append, List.flatten_cons]
    rfl
  | index hk _ hb _ ihe ihkey =>
    exact .suffix hk ihe hb ihkey.nested (ofGroup_index (ihkey.hides (.inl (by decide))).free) rfl
  | slice hk _ hb htwo _ hj ihe ihbounds =>
    have hseg : ∀ s ∈ _, IsSegment ":" s :=
      List.forall_mem_map.mpr fun x hx => (ihbounds x hx).isSegment (by decide)
    exact .suffix hk ihe hb (hj.nested_of_isSegment (by decide) hseg)
      (ofGroup_slice (hj.isSome_findOutside? (by rwa [List.length_map]) hseg)) rfl
  | array hk hb _ hj ihitems =>
    exact .array hk hb (hj.nested_of_isSegment (by decide)
      (List.forall_mem_map.mpr fun x hx => (ihitems x hx).isSegment (by decide)))
  | dictionary hk hb _ _ hcolons hj ihkeys ihvalues =>
    exact .dictionary hk hb (hj.nested_of_isSegment (by decide) (List.forall_mem_map.mpr
      fun x hx => WrittenEntry.isSegment (ihkeys x hx) (hcolons x hx) (ihvalues x hx)))
  | call hk _ _ hb _ hnamed hj ihcallee ihxs =>
    exact .suffix hk ihcallee hb (hj.nested_of_isSegment (by decide) (List.forall_mem_map.mpr
      fun x hx => WrittenArgument.isSegment (hnamed x hx) (ihxs x hx))) rfl rfl
  | @builtIn k function t o c ts xs hk ht hb _ hnamed hj ihxs =>
    have hname : WritesOperand suffixRank.level [t] :=
      .identifier (isIdentifier_of_spells_builtIn ht)
    have hsuffix : WritesOperand k ([t] ++ o :: (ts ++ [c])) :=
      .suffix hk hname hb (hj.nested_of_isSegment (by decide) (List.forall_mem_map.mpr
        fun x hx => WrittenArgument.isSegment (hnamed x hx) (ihxs x hx))) rfl rfl
    exact hsuffix

end ScriptReader

import ScriptReader.Proofs.Expr.KeptRules

/-!
# Proofs/Expr/Covered — reading keeps every operand but those behind an index

Where a phrase is divided, its operands are those of the parts and of what is beyond them; and each
rule keeps the operands of its parts.  So nothing but `Phrase.lost` is lost and nothing is read
twice: the words and constants of an expression are the operands of the phrase that it is read from,
but for those lost, and nothings for what is absent (`Expr.leaves_read`).
-/

namespace ScriptReader

namespace Expr

/-! ## Phrases -/

/-- What is read where a phrase is divided at an operator. -/
theorem parts_eq {p : Phrase} {d : Division} (harray : d.op ≠ .array)
    (hdictionary : d.op ≠ .dictionary) (hcall : d.op ≠ .call) :
    d.parts p = d.left :: rightParts d.op d.right := by
  rw [Division.parts, if_neg harray, if_neg hdictionary, if_neg hcall, rightParts]
  split
  · rfl
  · rfl

/-- Behind no other brackets is anything lost. -/
theorem beyond_eq_nil {p : Phrase} {d : Division} (hindex : d.op ≠ .index)
    (hslice : d.op ≠ .slice) : d.beyond p = [] :=
  if_neg (not_or.mpr ⟨hindex, hslice⟩)

/-- **Where a phrase is divided, the parts and what is beyond them are its operands.** -/
theorem operands_of_divides {p : Phrase} {d : Division} (h : p.IsScanned)
    (hd : Phrase.Divides d p) (harray : d.op ≠ .array) (hdictionary : d.op ≠ .dictionary)
    (hcall : d.op ≠ .call) :
    operands (d.left.tokens ++ d.right.tokens ++ d.beyond p) = operands p.tokens := by
  cases hd with
  | @operator t rank ht hp =>
    have hop := op_notMem_of_ranked ht
    simp only [List.mem_cons, List.not_mem_nil, or_false, not_or] at hop
    rw [beyond_eq_nil hop.1 hop.2.1, List.append_nil, hp, operands_append, operands_append,
      operands_cons_of_none (Token.leaf?_eq_none_of_ranked ht)]
  | @suffix o c beyond hop ho hc hp =>
    have hlex : ∀ t ∈ p.tokens, t.IsLexeme := h
    have hopener : o.leaf? = none :=
      Token.Spells.leaf?_eq_none ⟨ho, hlex o (by rw [hp]; simp)⟩ rfl
    have hcloser : c.leaf? = none :=
      Token.Spells.leaf?_eq_none ⟨hc, hlex c (by rw [hp]; simp)⟩ rfl
    have hbeyond : d.beyond p = beyond := by
      have hsize : d.left.size + d.right.size + 2
          = (d.left.tokens ++ o :: (d.right.tokens ++ [c])).length := by
        simp only [Phrase.size, List.length_append, List.length_cons, List.length_nil]
        omega
      have hsplit : p.tokens = (d.left.tokens ++ o :: (d.right.tokens ++ [c])) ++ beyond := by
        rw [hp]
        simp
      rw [Division.beyond, if_pos hop, hsize, hsplit, List.drop_left]
    rw [hbeyond, hp, List.append_assoc, operands_append, operands_append, operands_append,
      operands_cons_of_none hopener, operands_append, operands_cons_of_none hcloser]
  | call hop => exact absurd hop hcall
  | container hop => exact absurd hop (not_or.mpr ⟨harray, hdictionary⟩)

theorem isScanned_of_lowest {p : Phrase} {d : Division} (h : p.IsScanned)
    (hd : p.lowest = .ok (some d)) : d.left.IsScanned ∧ d.right.IsScanned := by
  obtain ⟨pos, first, last, hleft, hright⟩ := Phrase.exists_slices_of_lowest hd
  exact ⟨hleft ▸ h.slice _ _, hright ▸ h.slice _ _⟩

/-- A call is divided before its parentheses. -/
theorem tokens_of_call {p : Phrase} {d : Division} (hd : Phrase.Divides d p)
    (hcall : d.op = .call) : p.tokens = d.left.tokens ++ d.right.tokens := by
  cases hd with
  | operator ht =>
    rw [hcall] at ht
    exact absurd (by decide) (op_notMem_of_ranked ht)
  | suffix hop => rcases hop with hop | hop <;> cases hop.symm.trans hcall
  | call _ hp => exact hp
  | container hop => rcases hop with hop | hop <;> cases hop.symm.trans hcall

/-- A phrase that no parentheses enclose. -/
theorem kept_readUnwrapped {p q : Phrase} {sub : Sub q.size} (hsub : Keeps sub) {lookup : Lookup}
    {e : Expr} (hscanned : q.IsScanned) (hq : p.unwrap = .ok q)
    (h : readUnwrapped q sub lookup = .ok e) : Kept e.leaves p.lost q.tokens := by
  unfold readUnwrapped at h
  split at h
  · cases h
  · next hd =>
    rw [Phrase.lost_of_undivided hq hd]
    exact kept_ofOperand h
  · next d hd =>
    have hdivides := Phrase.divides_of_lowest hd
    obtain ⟨hleft, hright⟩ := isScanned_of_lowest hscanned hd
    rw [Phrase.lost_of_divided hq hd]
    dsimp only at h
    split at h
    · next harray =>
      rw [beyond_eq_nil (by rw [harray]; decide) (by rw [harray]; decide), List.nil_append,
        Division.parts, if_pos harray]
      exact kept_readArray hsub hscanned h
    next harray =>
    split at h
    · next hdictionary =>
      rw [beyond_eq_nil (by rw [hdictionary]; decide) (by rw [hdictionary]; decide),
        List.nil_append, Division.parts, if_neg harray, if_pos hdictionary]
      exact kept_readDictionary hsub hscanned h
    next hdictionary =>
    split at h
    · next hcall =>
      rw [beyond_eq_nil (by rw [hcall]; decide) (by rw [hcall]; decide), List.nil_append,
        Division.parts, if_neg harray, if_neg hdictionary, if_pos hcall, List.flatMap_cons,
        tokens_of_call hdivides hcall]
      exact kept_readCall hsub hleft hright h
    next hcall =>
    rw [parts_eq harray hdictionary hcall, List.flatMap_cons]
    exact ((kept_readOperator hsub hleft hright h).lose (d.beyond q)).congr
      (operands_of_divides hscanned hdivides harray hdictionary hcall)

/-- **Reading keeps what it reads**, by induction on how many tokens there are. -/
theorem keeps_reading (n : Nat) : Keeps (reading n) := by
  induction n with
  | zero => exact fun _ hq => absurd hq (Nat.not_lt_zero _)
  | succ n ih =>
    intro p hp lookup e hscanned h
    have hread : read p lookup = .ok e := h
    by_cases hnil : p.tokens = []
    · rw [read_eq, readStep, if_pos (by rw [Phrase.isEmpty, hnil]; rfl)] at hread
      cases hread
      rw [Phrase.lost_of_nil hnil, hnil]
      exact .absent
    · rw [read_of_ne_nil hnil] at hread
      obtain ⟨q, hq, hread⟩ := exists_of_bind_ok hread
      obtain ⟨hqscanned, hoperands⟩ := Phrase.operands_unwrap hscanned hq
      have hsub : Keeps (reading q.size) := fun r hr => ih r <|
        Nat.lt_of_lt_of_le hr (Nat.le_trans (Phrase.size_unwrap_le hq) (Nat.le_of_lt_succ hp))
      exact (kept_readUnwrapped hsub hqscanned hq hread).congr hoperands

/-! ## What an expression covers -/

/-- **The expression's leaves are the operands among the tokens**, and nothings for what is
absent. -/
def Covers (e : Expr) (ts : List Token) : Prop :=
  ∃ k, e.leaves = operands ts + Multiset.replicate k .nothing

/-- **No operand is read twice, and none is lost but behind an index or a slice.**  The leaves of an
expression that is read off scanned tokens are their operands but for those lost, and some nothings
for what is absent; so it covers the tokens just if what is lost is nothing but some of these. -/
theorem leaves_read {src : Source} {p : Phrase} (hp : p.tokens <:+: src.scan.tokens)
    {lookup : Lookup} {e : Expr} (h : read p lookup = .ok e) :
    ∃ k, e.leaves + operands p.lost = operands p.tokens + Multiset.replicate k .nothing
      ∧ (e.Covers p.tokens ↔ operands p.lost ≤ Multiset.replicate k .nothing) := by
  have hscanned : p.IsScanned := fun t ht => isLexeme_of_mem_scan (hp.subset ht)
  obtain ⟨k, hk⟩ := keeps_reading _ p (Nat.lt_succ_self _) lookup e hscanned h
  refine ⟨k, hk, ⟨fun ⟨j, hj⟩ => ?_, fun hle => ?_⟩⟩
  · rw [hj, add_assoc, add_right_inj] at hk
    rw [← hk]
    exact Multiset.le_add_left _ _
  · obtain ⟨rest, hrest⟩ := Multiset.le_iff_exists_add.mp hle
    rw [hrest, ← add_assoc, add_right_comm, add_left_inj] at hk
    obtain ⟨j, -, rfl⟩ := Multiset.le_replicate_iff.mp
      (hrest ▸ Multiset.le_add_left rest (operands p.lost))
    exact ⟨j, hk⟩

/-- `a[0] 5` is read as `a[0]`, so that one of its three operands is lost. -/
theorem leaves_read_behind_index :
    read (.whole (Source.ofString "a[0] 5").scan.tokens) .value
        = .ok (.binary .index (.name "a" .value) (.constant (.number (.ofInt 0))))
      ∧ ∃ k, Expr.leaves (.binary .index (.name "a" .value) (.constant (.number (.ofInt 0))))
            + operands [⟨.number, "5", 1⟩]
          = operands (Source.ofString "a[0] 5").scan.tokens + Multiset.replicate k .nothing
        ∧ (Expr.Covers (.binary .index (.name "a" .value) (.constant (.number (.ofInt 0))))
            (Source.ofString "a[0] 5").scan.tokens
          ↔ operands [⟨.number, "5", 1⟩] ≤ Multiset.replicate k .nothing) := by
  have hread : read (.whole (Source.ofString "a[0] 5").scan.tokens) .value
      = .ok (.binary .index (.name "a" .value) (.constant (.number (.ofInt 0)))) := by
    with_unfolding_all rfl
  have hlost : (Phrase.whole (Source.ofString "a[0] 5").scan.tokens).lost
      = [⟨.number, "5", 1⟩] := by decide +kernel
  have hleaves := leaves_read (List.infix_refl _) hread
  rw [hlost] at hleaves
  exact ⟨hread, hleaves⟩

/-- The scanner accepts `a[0] 5` as a statement, and what is read from it does not cover it. -/
theorem not_covers_behind_index :
    (Source.ofString "a[0] 5").scan.error? = none
      ∧ ∃ e, read (.whole (Source.ofString "a[0] 5").scan.tokens) .value = .ok e
        ∧ ¬ e.Covers (Source.ofString "a[0] 5").scan.tokens := by
  refine ⟨by decide +kernel,
    .binary .index (.name "a" .value) (.constant (.number (.ofInt 0))),
    by with_unfolding_all rfl, fun ⟨k, hk⟩ => ?_⟩
  have hthree : (operands (Source.ofString "a[0] 5").scan.tokens).card = 3 := by decide +kernel
  have hcard := congrArg Multiset.card hk
  rw [Multiset.card_add, hthree, Multiset.card_replicate] at hcard
  have htwo : 2 = 3 + k := hcard
  omega

end Expr

end ScriptReader

import ScriptReader.Proofs.Expr.Covered
import ScriptReader.Proofs.Expr.WellFormed
import ScriptReader.Proofs.Printed.Shown

/-!
# Proofs/Expr/Legible — the expressions that are read are legible

The words of an expression are operands among the tokens that it is read from, and so identifiers
(`Expr.isIdentifier_of_mem_leaves`).  A well-formed expression whose words are identifiers is
legible (`Expr.WellFormed.isLegible`); so whatever is read from a phrase of a scanned text is
(`Expr.isLegible_read`).
-/

namespace ScriptReader

/-! ## Words -/

/-- A word among the operands is an identifier. -/
theorem isIdentifier_of_leaf? {t : Token} (h : t.IsLexeme) {s : String}
    (hleaf : t.leaf? = some (.word s)) : IsIdentifier s := by
  unfold Token.leaf? at hleaf
  split at hleaf
  · next hkind =>
    cases hleaf
    exact isIdentifier_of_isLexeme h hkind
  · repeat' split at hleaf
    all_goals cases hleaf
  · split at hleaf <;> cases hleaf
  · cases hleaf
  · cases hleaf
  · cases hleaf
  · cases hleaf
  · cases hleaf

namespace Expr

variable {Part : Phrase → Prop}

/-- **The words of an expression are identifiers** among the tokens that it is read from. -/
theorem isIdentifier_of_mem_leaves {p : Phrase} (hp : p.IsScanned) {lookup : Lookup} {e : Expr}
    (h : read p lookup = .ok e) {s : String} (hs : .word s ∈ e.leaves) : IsIdentifier s := by
  obtain ⟨k, hk⟩ := keeps_reading _ p (Nat.lt_succ_self _) lookup e hp h
  have hmem : Leaf.word s ∈ operands p.tokens + Multiset.replicate k .nothing :=
    hk ▸ Multiset.mem_add.mpr (.inl hs)
  rcases Multiset.mem_add.mp hmem with hmem | hmem
  · obtain ⟨t, ht, hleaf⟩ := List.mem_filterMap.mp (Multiset.mem_coe.mp hmem)
    exact isIdentifier_of_leaf? (hp t ht) hleaf
  · cases Multiset.eq_of_mem_replicate hmem

/-! ## Leaves of parts -/

variable {leaf : Leaf} {e : Expr} {es : List Expr}

theorem mem_leavesAll (he : e ∈ es) (h : leaf ∈ e.leaves) : leaf ∈ leavesAll es := by
  induction es with
  | nil => cases he
  | cons d es ih =>
    rw [leavesAll, Multiset.mem_add]
    rcases List.mem_cons.mp he with rfl | he
    · exact .inl h
    · exact .inr (ih he)

theorem mem_leavesEntries {entries : List (Expr × Expr)} {entry : Expr × Expr}
    (hentry : entry ∈ entries) (h : leaf ∈ entry.1.leaves ∨ leaf ∈ entry.2.leaves) :
    leaf ∈ leavesEntries entries := by
  induction entries with
  | nil => cases hentry
  | cons d entries ih =>
    obtain ⟨key, value⟩ := d
    rw [leavesEntries, Multiset.mem_add, Multiset.mem_add]
    rcases List.mem_cons.mp hentry with rfl | hentry
    · exact .inl h
    · exact .inr (ih hentry)

/-- The keys of named arguments are texts, so that all words are in the values. -/
theorem word_mem_leavesNamed {named : List (Expr × Expr)}
    (hkeys : ∀ entry ∈ named, ∃ s, entry.1 = .text s) {s : String}
    (h : .word s ∈ leavesEntries named) : .word s ∈ leavesNamed named := by
  induction named with
  | nil =>
    rw [leavesEntries] at h
    rwa [leavesNamed]
  | cons entry named ih =>
    obtain ⟨key, value⟩ := entry
    obtain ⟨⟨t, ht⟩, hrest⟩ := List.forall_mem_cons.mp hkeys
    obtain rfl : key = .text t := ht
    rw [leavesEntries, Multiset.mem_add, Multiset.mem_add] at h
    rw [leavesNamed, Multiset.mem_add, Multiset.mem_add]
    rcases h with (h | h) | h
    · rw [text, leaves] at h
      cases Multiset.mem_singleton.mp h
    · exact .inl (.inr h)
    · exact .inr (ih hrest h)

/-! ## Well-formed expressions -/

theorem head_mem_all {op : Operator}
    (hop : op ∉ [Operator.not, .call, .array, .dictionary, .parenthesis]) :
    Head.operator op ∈ Head.all := by
  have hall : ∀ op ∈ Operator.all,
      op ∉ [Operator.not, .call, .array, .dictionary, .parenthesis] →
        Head.operator op ∈ Head.all := by decide
  exact hall op op.mem_all hop

/-- **A well-formed expression is legible if its words are identifiers.** -/
theorem WellFormed.isLegible (h : e.WellFormed Part)
    (hwords : ∀ s, .word s ∈ e.leaves → IsIdentifier s) : e.IsLegible := by
  -- The named arguments of a call are texts with their values.
  have arguments {arguments : List Expr} (hargs : IsArguments arguments)
      (ih : ∀ e ∈ arguments, (∀ s, .word s ∈ e.leaves → IsIdentifier s) → e.IsLegible)
      (hwords : ∀ s, .word s ∈ leavesArguments arguments → IsIdentifier s) :
      ∀ e ∈ arguments, e.IsLegible := by
    obtain ⟨named, others, rfl, hkeys⟩ := hargs
    rw [leavesArguments] at hwords
    refine List.forall_mem_cons.mpr ⟨?_, fun e he => ?_⟩
    · refine ih _ List.mem_cons_self fun s hs => hwords s (Multiset.mem_add.mpr (.inl ?_))
      rw [leaves] at hs
      exact word_mem_leavesNamed hkeys hs
    · exact ih e (List.mem_cons_of_mem _ he) fun s hs =>
        hwords s (Multiset.mem_add.mpr (.inr (mem_leavesAll he hs)))
  induction h with
  | nothing => exact .nothing
  | boolean b => exact .boolean b
  | text s => exact .text s
  | number hx => exact .number hx
  | name identifier lookup =>
    exact .name (hwords identifier (by rw [leaves]; exact Multiset.mem_singleton_self _))
  | array _ ih =>
    rw [leaves] at hwords
    exact .array fun e he => ih e he fun s hs => hwords s (mem_leavesAll he hs)
  | dictionary _ _ ihkeys ihvalues =>
    rw [leaves] at hwords
    exact .dictionary
      (fun entry he => ihkeys entry he fun s hs => hwords s (mem_leavesEntries he (.inl hs)))
      (fun entry he => ihvalues entry he fun s hs => hwords s (mem_leavesEntries he (.inr hs)))
  | unary hop _ _ ih =>
    rw [leaves] at hwords
    have hhead : ∀ op ∈ [Operator.plus, .minus, .not], Head.operator op ∈ Head.all := by decide
    exact .unary (hhead _ hop) (ih hwords)
  | binary hop _ _ _ _ ihleft ihright =>
    rw [leaves] at hwords
    exact .binary (head_mem_all hop)
      (ihleft fun s hs => hwords s (Multiset.mem_add.mpr (.inl hs)))
      (ihright fun s hs => hwords s (Multiset.mem_add.mpr (.inr hs)))
  | call hargs _ _ ihcallee ih =>
    rw [leaves] at hwords
    exact .call (ihcallee fun s hs => hwords s (Multiset.mem_add.mpr (.inl hs)))
      (arguments hargs ih fun s hs => hwords s (Multiset.mem_add.mpr (.inr hs)))
  | builtIn hargs _ ih =>
    rw [leaves] at hwords
    exact .builtIn (arguments hargs ih fun s hs => hwords s (Multiset.mem_add.mpr (.inr hs)))

/-- **Whatever is read from a phrase of a scanned text is legible.** -/
theorem isLegible_read (hpart : Phrase.AreParts Part) {p : Phrase} (hp : Part p)
    (lookup : Lookup) : Yields IsLegible (read p lookup) := fun e h =>
  (wellFormed_read hpart hp lookup e h).isLegible fun _ hs =>
    isIdentifier_of_mem_leaves (hpart.isScanned hp) h hs

end Expr

end ScriptReader

import Mathlib.Data.List.Induction
import ScriptReader.Proofs.Expr.Targets
import ScriptReader.Proofs.Phrase.Cutting
import ScriptReader.Proofs.Script.Alike
import ScriptReader.Proofs.Source.Balanced
import ScriptReader.Proofs.Source.Scanned

/-!
# Proofs/Script/IndexGroups — an index that is assigned to, and an index that is read

The brackets behind a name are read in two ways.  An assignment goes through those before its
operator from right to left and reads what each of them holds; an expression is divided at its last
brackets, and what is left of them at the brackets before.  Both read the same phrases, but only the
expression asks what stands between the brackets: nothing is no operand, and a colon makes a slice.
So the two agree just where every pair of brackets holds something without a colon
(`Line.read_indexed`).
-/

namespace ScriptReader

open ScriptReader.Bracket

/-- Of two runs in parallel both come to a value, or neither does. -/
theorem Parallel.eq_ok_iff {R : Nat → Nat → Prop} {α : Type} {x y : Except Error α} {a : α}
    (h : Parallel R Eq x y) : x = .ok a ↔ y = .ok a := by
  cases h with
  | ok h => rw [h]
  | error => exact ⟨nofun, nofun⟩

/-! ## What stands between two tokens -/

namespace Phrase

variable {p : Phrase} {as rest : List Token}

/-- What is cut out from between two tokens lies between their lines. -/
theorem slice_between {o c : Token} {ts : List Token}
    (hp : p.tokens = as ++ o :: (ts ++ c :: rest)) :
    p.slice (as.length + 1) (as.length + ts.length + 1)
      = ⟨ts, p.start + (as.length + 1), some o.line, some c.line⟩ := by
  have htokens := tokens_slice_of_bracketed hp
  have hsize : p.size = as.length + ts.length + rest.length + 2 := by
    rw [size, hp]
    simp only [List.length_append, List.length_cons]
    omega
  have hlast : min (as.length + ts.length + 1) p.size = as.length + ts.length + 1 := by omega
  have hfirst : min (as.length + 1) (as.length + ts.length + 1) = as.length + 1 := by omega
  unfold slice at htokens ⊢
  dsimp only at htokens ⊢
  rw [htokens, hlast, hfirst, lineLeftOf, if_neg (Nat.succ_ne_zero _), Nat.add_sub_cancel,
    getElem?_of_append hp, lineRightOf, getElem?_of_bracketed hp]
  rfl

/-- Phrases of the same tokens, between the same lines, are alike wherever they start. -/
theorem alike_between (ts : List Token) (before after start start' : Nat) :
    Alike Eq ⟨ts, start, some before, some after⟩
      ⟨ts, start', some before, some after⟩ where
  tokens := List.forall₂_same.mpr fun _ _ => ⟨rfl, rfl, rfl⟩
  before := .some rfl
  after := .some rfl
  anchored := .inr (.inl rfl)

end Phrase

/-! ## Groups -/

/-- Square brackets with what they hold. -/
structure IndexGroup where
  opener : Token
  inner : List Token
  closer : Token
  encloses : Encloses .square opener closer
  nested : Nested inner

namespace IndexGroup

def tokens (g : IndexGroup) : List Token := g.opener :: (g.inner ++ [g.closer])

/-- What stands between the brackets. -/
def interior (g : IndexGroup) : Phrase := (Phrase.whole g.tokens).trim 1

/-- What stands between the brackets is read as the expression, by value. -/
def ReadsAs (g : IndexGroup) (e : Expr) : Prop := Expr.read g.interior .value = .ok e

/-- The brackets hold something, and no colon outside further brackets. -/
structure HoldsKey (g : IndexGroup) : Prop where
  ne_nil : g.inner ≠ []
  no_colon : findOutside? ":" 0 g.inner = none

variable {g : IndexGroup} {gs : List IndexGroup} {p : Phrase} {as rest : List Token}

theorem tokens_append : g.tokens ++ rest = g.opener :: (g.inner ++ g.closer :: rest) := by
  simp [tokens]

theorem length_tokens : g.tokens.length = g.inner.length + 2 := by simp [tokens]

/-- **Wherever a square bracket is opened in a statement, a group begins.** -/
theorem exists_of_scan {src : Source} (hflaw : src.scan.flaw = none) {before behind : List Token}
    {o : Token} (h : src.scan.tokens = before ++ o :: behind) (ho : o.text = square.openerText) :
    ∃ (g : IndexGroup) (rest : List Token), o :: behind = g.tokens ++ rest := by
  have hlexeme : ∀ t ∈ before ++ o :: behind, t.IsLexeme := fun t ht =>
    isLexeme_of_mem_scan (h ▸ ht)
  have hnested : Nested (before ++ o :: behind) := h ▸ Source.nested_scan hflaw
  obtain ⟨inner, c, rest, rfl, hc, hinner⟩ := (hnested.exists_partner square).1 ho
  have hencloses : Encloses .square o c :=
    ⟨⟨ho, hlexeme o (by simp)⟩, hc, hlexeme c (by simp)⟩
  refine ⟨⟨o, inner, c, hencloses, hinner⟩, rest, ?_⟩
  rw [tokens_append]

/-- Groups hide what their brackets hold together. -/
theorem hides_flatMap {text : String} (hne : square.openerText ≠ text) :
    Hides text (gs.flatMap tokens) := by
  induction gs with
  | nil => exact .nil
  | cons g gs ih =>
    rw [List.flatMap_cons]
    exact (Hides.bracketed .square g.encloses.opener.text_eq g.encloses.closer.text_eq g.nested
      hne).append ih

theorem interior_eq (g : IndexGroup) :
    g.interior = ⟨g.inner, 1, some g.opener.line, some g.closer.line⟩ := by
  have hp : (Phrase.whole g.tokens).tokens = [] ++ g.opener :: (g.inner ++ g.closer :: []) := rfl
  have hsize : (Phrase.whole g.tokens).size - 1
      = ([] : List Token).length + g.inner.length + 1 := by
    simp [Phrase.size, Phrase.whole, tokens]
  rw [interior, Phrase.trim, hsize]
  exact Phrase.slice_between hp

/-- Between empty brackets `None` is read, whether or not they may be empty. -/
theorem readsAs_nothing (h : g.inner = []) : g.ReadsAs .nothing := by
  have hempty : g.interior.isEmpty = true := by rw [interior_eq, Phrase.isEmpty, h]; rfl
  rw [ReadsAs, Expr.read_eq, Expr.readStep, if_pos hempty]

/-- **Wherever the brackets stand, what they hold is read alike.** -/
theorem read_slice_iff (hp : p.tokens = as ++ (g.tokens ++ rest)) {e : Expr} :
    Expr.read (p.slice (as.length + 1) (as.length + g.inner.length + 1)) .value = .ok e
      ↔ g.ReadsAs e := by
  rw [tokens_append] at hp
  rw [ReadsAs, interior_eq, Phrase.slice_between hp]
  exact (Expr.read_alike (Phrase.alike_between _ _ _ _ _) .value).eq_ok_iff

end IndexGroup

/-! ## The way of an assignment -/

/-- What is related to a list with one more at its end has one more at its end. -/
theorem forall₂_concat_iff {α β : Type} {R : α → β → Prop} {as : List α} {a : α} {bs : List β} :
    List.Forall₂ R (as ++ [a]) bs
      ↔ ∃ bs' b, bs = bs' ++ [b] ∧ List.Forall₂ R as bs' ∧ R a b := by
  rw [← List.forall₂_reverse_iff, List.reverse_append, List.reverse_singleton,
    List.singleton_append, List.forall₂_cons_left_iff]
  constructor
  · rintro ⟨b, us, hb, hus, hrev⟩
    refine ⟨us.reverse, b, ?_, ?_, hb⟩
    · rw [← List.reverse_reverse bs, hrev, List.reverse_cons]
    · rwa [← List.forall₂_reverse_iff, List.reverse_reverse]
  · rintro ⟨bs', b, rfl, hbs, hb⟩
    exact ⟨b, bs'.reverse, hb, List.forall₂_reverse_iff.mpr hbs, by simp⟩

namespace Phrase

variable {p : Phrase} {gs : List IndexGroup} {as rest : List Token}

/-- **The groups before a position are read, all of them or none.** -/
theorem readIndices_groups (hp : p.tokens = as ++ (gs.flatMap IndexGroup.tokens ++ rest))
    (has : NotIndexed as) {later : List Expr} {x : Nat × List Expr} :
    p.readIndices (as.length + (gs.flatMap IndexGroup.tokens).length) later = .ok x
      ↔ ∃ is, List.Forall₂ IndexGroup.ReadsAs gs is ∧ x = (as.length, is ++ later) := by
  -- the induction is on the groups from the right, as they are met
  induction gs using List.reverseRecOn generalizing rest later with
  | nil =>
    rw [List.flatMap_nil, List.length_nil, Nat.add_zero, readIndices_of_notIndexed hp has]
    simp [eq_comm]
  | append_singleton gs g ih =>
    have hflat : (gs ++ [g]).flatMap IndexGroup.tokens
        = gs.flatMap IndexGroup.tokens ++ g.tokens := by simp
    have hgroups : p.tokens = as ++ (gs.flatMap IndexGroup.tokens ++ (g.tokens ++ rest)) := by
      rw [hp, hflat, List.append_assoc]
    have hgroup : p.tokens = (as ++ gs.flatMap IndexGroup.tokens) ++ (g.tokens ++ rest) := by
      rw [hgroups, List.append_assoc]
    rw [hflat, List.length_append, ← Nat.add_assoc, ← List.length_append, g.length_tokens,
      readIndices_bracketed (g.tokens_append ▸ hgroup) g.encloses g.nested]
    simp only [forall₂_concat_iff]
    constructor
    · intro h
      obtain ⟨index, hindex, h⟩ := Expr.exists_of_bind_ok h
      rw [List.length_append] at h
      obtain ⟨is, his, rfl⟩ := (ih hgroups).mp h
      refine ⟨is ++ [index], ⟨is, index, rfl, his, ?_⟩, by simp⟩
      exact (IndexGroup.read_slice_iff hgroup).mp hindex
    · rintro ⟨_, ⟨is, index, rfl, his, hindex⟩, rfl⟩
      rw [(IndexGroup.read_slice_iff hgroup).mpr hindex, List.length_append]
      exact (ih hgroups).mpr ⟨is, his, by simp⟩

end Phrase

/-! ## Assignments -/

/-- **An assignment is read just if its indices, its target and its value are.** -/
theorem Phrase.readAssignmentAt_eq_ok_iff {p : Phrase} {pos : Nat} {lookup : Lookup} {s : Stmt} :
    p.readAssignmentAt pos lookup = .ok s ↔ (p.drop (pos + 1)).isEmpty = false
      ∧ ∃ last is target value, p.readIndices pos [] = .ok (last, is)
        ∧ Expr.readTarget (p.take last) lookup = .ok target
        ∧ Expr.read (p.drop (pos + 1)) .value = .ok value ∧ s = .assign target is value := by
  rw [readAssignmentAt]
  dsimp only
  cases hempty : (p.drop (pos + 1)).isEmpty with
  | true => simp [refuse]
  | false =>
    rw [if_neg Bool.false_ne_true]
    constructor
    · intro h
      obtain ⟨⟨last, is⟩, hindices, h⟩ := Expr.exists_of_bind_ok h
      obtain ⟨target, htarget, h⟩ := Expr.exists_of_bind_ok h
      obtain ⟨value, hvalue, h⟩ := Expr.exists_of_bind_ok h
      cases h
      exact ⟨rfl, last, is, target, value, hindices, htarget, hvalue, rfl⟩
    · rintro ⟨-, last, is, target, value, hindices, htarget, hvalue, rfl⟩
      rw [hindices]
      simp only [bind, Except.bind, htarget, hvalue]
      rfl

/-- A word can be bound. -/
theorem Expr.readTarget_word {p : Phrase} {word : Token} (hword : word.IsIdentifier)
    (hp : p.tokens = [word]) (lookup : Lookup) :
    Expr.readTarget p lookup = .ok (.name word.text lookup) := by
  have hwritten : Written 0 (.name word.text lookup) [word] := .name hword
  exact (Expr.IsBindable.name _ _).readTarget (hwritten.reads p lookup hp)

section Assignment

variable {p : Phrase} {word operator : Token} {gs : List IndexGroup} {vs : List Token}
  {value : Expr} (hword : word.IsIdentifier) (ho : operator.Spells "=")
  (hp : p.tokens = (word :: gs.flatMap IndexGroup.tokens) ++ operator :: vs) (hvs : vs ≠ [])
  (hvalue : Expr.read (p.drop ((word :: gs.flatMap IndexGroup.tokens).length + 1)) .value
    = .ok value)
include hword ho hp

/-- The assignment's operator stands behind the groups. -/
theorem Phrase.assignment?_groups :
    p.assignment? = some ((word :: gs.flatMap IndexGroup.tokens).length, .binding) := by
  have hhides : Hides "=" (word :: gs.flatMap IndexGroup.tokens) :=
    (hword.hides (by decide)).append (IndexGroup.hides_flatMap (by decide))
  have hfind : p.findOutside? "=" = some (word :: gs.flatMap IndexGroup.tokens).length := by
    rw [findOutside?, hp]
    exact hhides.findOutside?_append_cons ho.text_eq
  rw [assignment?, hfind]

include hvs hvalue

/-- **An assignment to an indexed name is read just if every index is**, whatever the brackets
hold otherwise. -/
theorem Line.read_assignment_iff {l : Line} :
    Line.read p = .ok l ↔ ∃ is, List.Forall₂ IndexGroup.ReadsAs gs is
      ∧ l = .complete (.assign (.name word.text .binding) is value) := by
  have htext : p.textAt 0 ∉ statementWords := by
    rw [Phrase.textAt_zero hp]
    exact hword.isLexeme.not_mem_statementWords (by rw [hword.kind_eq]; decide)
  have hwritten : Written 0 (.name word.text .binding) [word] := .name hword
  have hindices {x : Nat × List Expr} :
      p.readIndices (word :: gs.flatMap IndexGroup.tokens).length [] = .ok x
        ↔ ∃ is, List.Forall₂ IndexGroup.ReadsAs gs is ∧ x = (1, is ++ []) := by
    have hgroups : p.tokens = [word] ++ (gs.flatMap IndexGroup.tokens ++ operator :: vs) := hp
    rw [List.length_cons, Nat.add_comm]
    exact Phrase.readIndices_groups hgroups hwritten.notIndexed_name
  have htake : (p.take [word].length).tokens = [word] := Phrase.tokens_take_of_append hp
  have htarget : Expr.readTarget (p.take 1) .binding = .ok (.name word.text .binding) :=
    Expr.readTarget_word hword htake .binding
  have hne : (p.drop ((word :: gs.flatMap IndexGroup.tokens).length + 1)).isEmpty = false :=
    Phrase.isEmpty_eq_false (by rwa [Phrase.tokens_drop_of_cons hp])
  rw [read_other htext, Phrase.assignment?_groups hword ho hp]
  dsimp only
  constructor
  · intro h
    obtain ⟨s, hs, rfl⟩ := Expr.exists_of_map_ok h
    obtain ⟨-, last, is, target, v, hlast, ht, hv, rfl⟩ :=
      Phrase.readAssignmentAt_eq_ok_iff.mp hs
    obtain ⟨is, his, heq⟩ := hindices.mp hlast
    obtain ⟨rfl, rfl⟩ := Prod.mk.inj heq
    obtain rfl := Except.ok.inj (htarget.symm.trans ht)
    obtain rfl := Except.ok.inj (hvalue.symm.trans hv)
    exact ⟨is, his, by rw [List.append_nil]⟩
  · rintro ⟨is, his, rfl⟩
    have hlast := hindices.mpr ⟨is, his, rfl⟩
    rw [List.append_nil] at hlast
    rw [Phrase.readAssignmentAt_eq_ok_iff.mpr ⟨hne, 1, is, _, value, hlast, htarget, hvalue, rfl⟩]
    rfl

end Assignment

/-! ## The way of an expression -/

namespace Expr

/-- The last look-up counts. -/
theorem rebound_rebound (lookup lookup' : Lookup) (e : Expr) :
    (e.rebound lookup).rebound lookup' = e.rebound lookup' := by
  fun_induction rebound lookup e with
  | case1 => rfl
  | case2 op left right ih => rw [rebound, ih, rebound]
  | case3 => rfl

/-- What is read is the expression, names aside, just if it is read by value as the expression. -/
theorem exists_read_rebound_iff {p : Phrase} {lookup : Lookup} {e : Expr} :
    (∃ e', read p lookup = .ok e' ∧ e'.rebound .value = e) ↔ read p .value = .ok e := by
  have hvalue := read_rebound p .value
  rw [read_rebound p lookup]
  cases hread : read p .value with
  | error => simp [Functor.map, Except.map]
  | ok e₀ =>
    rw [hread] at hvalue
    have he₀ : e₀ = e₀.rebound .value := Except.ok.inj hvalue
    simp only [Functor.map, Except.map, Except.ok.injEq, exists_eq_left', rebound_rebound, ← he₀]

/-- The expression with indices behind it, the outermost one last. -/
def indexed (e : Expr) (is : List Expr) : Expr := is.foldl (.binary .index) e

theorem indexed_concat (e : Expr) (is : List Expr) (i : Expr) :
    e.indexed (is ++ [i]) = .binary .index (e.indexed is) i := by
  rw [indexed, List.foldl_append]
  rfl

variable {p : Phrase} {g : IndexGroup} {gs : List IndexGroup} {es : List Token} {word : Token}

/-- A name with groups behind it writes an operand. -/
theorem writesOperand_groups (hword : word.IsIdentifier) (gs : List IndexGroup) :
    WritesOperand suffixRank.level (word :: gs.flatMap IndexGroup.tokens) := by
  induction gs using List.reverseRecOn with
  | nil => exact .identifier hword
  | append_singleton gs g ih =>
    rw [List.flatMap_append, List.flatMap_singleton, ← List.cons_append]
    cases hcolon : findOutside? ":" 0 g.inner with
    | none => exact .suffix (Nat.le_refl _) ih g.encloses g.nested (ofGroup_index hcolon) rfl
    | some =>
      have hslice := ofGroup_slice (o := g.opener) (c := g.closer) (by rw [hcolon]; rfl)
      exact .suffix (Nat.le_refl _) ih g.encloses g.nested hslice rfl

section Suffix

variable (hes : WritesOperand suffixRank.level es) (hp : p.tokens = es ++ g.tokens)
include hes hp

/-- No parentheses enclose what ends in a group. -/
theorem unwrap_group : p.unwrap = .ok p :=
  unwrap_of_not_enclosed (isEnclosed_of_append .round hp hes.nested
    (Nested.bracketed .square g.encloses.opener.text_eq g.encloses.closer.text_eq g.nested).nested
    hes.ne_nil (List.cons_ne_nil _ _))

/-- So it is no name. -/
theorem not_read_name {identifier : String} {lookup lookup' : Lookup} :
    read p lookup ≠ .ok (.name identifier lookup') := by
  intro h
  obtain ⟨t, ⟨q, hq, htokens, -⟩, -⟩ := isWord_of_read h
  obtain rfl := Except.ok.inj ((unwrap_group hes hp).symm.trans hq)
  have hlength := congrArg List.length (hp.symm.trans htokens)
  rw [List.length_append, g.length_tokens, List.length_singleton] at hlength
  omega

/-- With a colon in the brackets, it is a slice. -/
theorem not_read_index (hcolon : (findOutside? ":" 0 g.inner).isSome) {l r : Expr} :
    read p .value ≠ .ok (.binary .index l r) := by
  intro h
  obtain ⟨-, -, hlowest⟩ := read_suffix hes hp g.nested g.encloses (ofGroup_slice hcolon)
  obtain ⟨q, d, hq, hd, hindex, -⟩ := operands_of_read h (by decide)
  obtain rfl := Except.ok.inj ((unwrap_group hes hp).symm.trans hq)
  obtain rfl := Option.some.inj (Except.ok.inj (hlowest.symm.trans hd))
  cases hindex

/-- Without one it is an index, if its brackets hold anything. -/
theorem read_index_iff (hcolon : findOutside? ":" 0 g.inner = none) {l r : Expr} :
    read p .value = .ok (.binary .index l r)
      ↔ read (p.take es.length) .value = .ok l ∧ g.ReadsAs r ∧ g.inner ≠ [] := by
  have hunwrap := unwrap_group hes hp
  have hlowest : p.lowest = .ok (some ⟨.index, p.take es.length,
      p.slice (es.length + 1) (es.length + g.inner.length + 1)⟩) :=
    (read_suffix hes hp g.nested g.encloses (ofGroup_index hcolon)).2.2
  have hgroup : p.tokens = es ++ (g.tokens ++ []) := by rw [hp, List.append_nil]
  have hinner : (p.slice (es.length + 1) (es.length + g.inner.length + 1)).tokens = g.inner :=
    Phrase.tokens_slice_of_bracketed (g.tokens_append ▸ hgroup)
  have hleft : (p.take es.length).isEmpty = false :=
    Phrase.isEmpty_eq_false (by rw [Phrase.tokens_take_of_append hp]; exact hes.ne_nil)
  constructor
  · intro h
    obtain ⟨q, d, hq, hd, -, -, hright, hl, hr⟩ := operands_of_read h (by decide)
    obtain rfl := Except.ok.inj (hunwrap.symm.trans hq)
    obtain rfl := Option.some.inj (Except.ok.inj (hlowest.symm.trans hd))
    refine ⟨hl, (IndexGroup.read_slice_iff hgroup).mp hr, fun hnil => ?_⟩
    rw [Phrase.isEmpty, hinner, hnil] at hright
    cases hright
  · rintro ⟨hl, hr, hne⟩
    have hindex : Operator.index ∉ [Operator.call, .array, .dictionary, .not, .slice] := by decide
    exact read_of_operands hunwrap hlowest hindex hleft
      (Phrase.isEmpty_eq_false (by rwa [hinner])) hl ((IndexGroup.read_slice_iff hgroup).mpr hr)

/-- **A phrase that ends in a group is an index just if the group holds a key**, and then its parts
are read by themselves. -/
theorem read_group_iff {l r : Expr} : read p .value = .ok (.binary .index l r)
    ↔ read (p.take es.length) .value = .ok l ∧ g.ReadsAs r ∧ g.HoldsKey := by
  cases hcolon : findOutside? ":" 0 g.inner with
  | none =>
    rw [read_index_iff hes hp hcolon]
    exact ⟨fun ⟨hl, hr, hne⟩ => ⟨hl, hr, hne, hcolon⟩, fun ⟨hl, hr, hkey⟩ => ⟨hl, hr, hkey.ne_nil⟩⟩
  | some k =>
    refine ⟨fun h => absurd h (not_read_index hes hp (by rw [hcolon]; rfl)), ?_⟩
    rintro ⟨-, -, hkey⟩
    cases hcolon.symm.trans hkey.no_colon

end Suffix

/-- **A name with groups behind it is read as a name with indices** just if every group holds a key
that is read. -/
theorem read_indexed_iff (hword : word.IsIdentifier)
    (hp : p.tokens = word :: gs.flatMap IndexGroup.tokens) {is : List Expr} :
    read p .value = .ok ((name word.text .value).indexed is)
      ↔ List.Forall₂ IndexGroup.ReadsAs gs is ∧ ∀ g ∈ gs, g.HoldsKey := by
  -- the induction is on the groups from the right, as the phrase is divided
  induction gs using List.reverseRecOn generalizing p is with
  | nil =>
    have hwritten : Written 0 (.name word.text .value) [word] := .name hword
    have hread : read p .value = .ok (.name word.text .value) := hwritten.reads p .value hp
    rw [hread, List.forall₂_nil_left_iff]
    rcases List.eq_nil_or_concat is with rfl | ⟨is, i, rfl⟩
    · simp [indexed]
    · rw [List.concat_eq_append, indexed_concat]
      simp
  | append_singleton gs g ih =>
    have hes := writesOperand_groups hword gs
    have hsplit : p.tokens = (word :: gs.flatMap IndexGroup.tokens) ++ g.tokens := by
      rw [hp, List.flatMap_append, List.flatMap_singleton, List.cons_append]
    have hleft := Phrase.tokens_take_of_append hsplit
    rw [forall₂_concat_iff]
    rcases List.eq_nil_or_concat is with rfl | ⟨is, i, rfl⟩
    · refine ⟨fun h => absurd h (not_read_name hes hsplit), ?_⟩
      rintro ⟨⟨is, i, hnil, -⟩, -⟩
      simp at hnil
    · rw [List.concat_eq_append, indexed_concat, read_group_iff hes hsplit, ih hleft,
        List.forall_mem_append, List.forall_mem_singleton]
      constructor
      · rintro ⟨⟨his, hgs⟩, hi, hg⟩
        exact ⟨⟨is, i, rfl, his, hi⟩, hgs, hg⟩
      · rintro ⟨⟨is', i', heq, his, hi⟩, hgs, hg⟩
        obtain ⟨rfl, hlast⟩ := List.append_inj' heq rfl
        obtain rfl := List.singleton_inj.mp hlast
        exact ⟨⟨his, hgs⟩, hi, hg⟩

end Expr

/-! ## Writing and reading -/

/-- **Writing and reading an indexed name.**  The assignment is read just if what every pair of
brackets holds is read, and these are its indices.  The indexed name is read as such, with the same
indices, just if the assignment is read with them and every pair of brackets holds a key. -/
theorem Line.read_indexed {p : Phrase} {word operator : Token} {gs : List IndexGroup}
    {vs : List Token} {value : Expr} (hword : word.IsIdentifier) (ho : operator.Spells "=")
    (hp : p.tokens = (word :: gs.flatMap IndexGroup.tokens) ++ operator :: vs) (hvs : vs ≠ [])
    (hvalue : Expr.read (p.drop ((word :: gs.flatMap IndexGroup.tokens).length + 1)) .value
      = .ok value) :
    (∀ l, Line.read p = .ok l ↔ ∃ is, List.Forall₂ IndexGroup.ReadsAs gs is
        ∧ l = .complete (.assign (.name word.text .binding) is value))
      ∧ ∀ (lookup : Lookup) (is : List Expr),
        (∃ e, Expr.read (p.take (word :: gs.flatMap IndexGroup.tokens).length) lookup = .ok e
            ∧ e.rebound .value = (Expr.name word.text .value).indexed is)
          ↔ Line.read p = .ok (.complete (.assign (.name word.text .binding) is value))
            ∧ ∀ g ∈ gs, g.HoldsKey := by
  have hassign {l : Line} := Line.read_assignment_iff (l := l) hword ho hp hvs hvalue
  refine ⟨fun l => hassign, fun lookup is => ?_⟩
  have htake := Phrase.tokens_take_of_append hp
  rw [Expr.exists_read_rebound_iff, Expr.read_indexed_iff hword htake, hassign]
  simp only [Line.complete.injEq, Stmt.assign.injEq, true_and, and_true, exists_eq_right']

/-- In `x[a][b[1]] = 3` two indices are written, and the second one is an indexed name itself. -/
theorem Line.read_indexed_twice :
    let p := Phrase.whole (Source.ofString "x[a][b[1]] = 3").scan.tokens
    ∃ (word operator : Token) (gs : List IndexGroup) (vs : List Token) (value : Expr),
      word.IsIdentifier ∧ operator.Spells "="
        ∧ p.tokens = (word :: gs.flatMap IndexGroup.tokens) ++ operator :: vs ∧ vs ≠ []
        ∧ Expr.read (p.drop ((word :: gs.flatMap IndexGroup.tokens).length + 1)) .value
          = .ok value
        ∧ gs.length = 2 ∧ (∀ g ∈ gs, g.HoldsKey)
        ∧ (∀ l, Line.read p = .ok l ↔ ∃ is, List.Forall₂ IndexGroup.ReadsAs gs is
          ∧ l = .complete (.assign (.name word.text .binding) is value))
        ∧ ∀ (lookup : Lookup) (is : List Expr),
          (∃ e, Expr.read (p.take (word :: gs.flatMap IndexGroup.tokens).length) lookup = .ok e
              ∧ e.rebound .value = (Expr.name word.text .value).indexed is)
            ↔ Line.read p = .ok (.complete (.assign (.name word.text .binding) is value))
              ∧ ∀ g ∈ gs, g.HoldsKey := by
  intro p
  have hbrackets : Encloses .square ⟨.operator, "[", 1⟩ ⟨.operator, "]", 1⟩ :=
    ⟨⟨rfl, by decide⟩, rfl, by decide⟩
  have hword : Token.IsIdentifier ⟨.identifier, "x", 1⟩ := ⟨by decide, rfl⟩
  have ho : Token.Spells "=" ⟨.operator, "=", 1⟩ := ⟨rfl, by decide⟩
  have hone : Nested [⟨.number, "1", 1⟩] := (Group.token ⟨rfl, rfl⟩).nested
  let g₁ : IndexGroup := ⟨_, [⟨.identifier, "a", 1⟩], _, hbrackets, (Group.token ⟨rfl, rfl⟩).nested⟩
  let g₂ : IndexGroup := ⟨_, ⟨.identifier, "b", 1⟩ :: ⟨.operator, "[", 1⟩ ::
    ([⟨.number, "1", 1⟩] ++ [⟨.operator, "]", 1⟩]), _, hbrackets,
    .cons ⟨rfl, rfl⟩ (Nested.bracketed .square rfl rfl hone).nested⟩
  have hp : p.tokens = (⟨.identifier, "x", 1⟩ :: [g₁, g₂].flatMap IndexGroup.tokens)
      ++ ⟨.operator, "=", 1⟩ :: [⟨.number, "3", 1⟩] := by with_unfolding_all rfl
  have hvalue : ∃ value, Expr.read (p.drop 11) .value = .ok value :=
    ⟨_, by with_unfolding_all rfl⟩
  obtain ⟨value, hvalue⟩ := hvalue
  have hkeys : ∀ g ∈ [g₁, g₂], g.HoldsKey := by
    simp only [List.forall_mem_cons]
    exact ⟨⟨nofun, rfl⟩, ⟨nofun, rfl⟩, nofun⟩
  exact ⟨_, _, [g₁, g₂], _, value, hword, ho, hp, nofun, hvalue, rfl, hkeys,
    Line.read_indexed hword ho hp nofun hvalue⟩

/-- Empty brackets are the key `None` in `x[] = 1`, while `x[]` is not read at all. -/
theorem Line.read_empty_index :
    (∃ x, Script.read "x[] = 1"
        = .ok [.assign (.name "x" .binding) [.nothing] (.constant (.number x))])
      ∧ ((Phrase.whole (Source.ofString "x[] = 1").scan.tokens).take 3).tokens.map Token.text
        = ["x", "[", "]"]
      ∧ ∀ lookup, Expr.read ((Phrase.whole (Source.ofString "x[] = 1").scan.tokens).take 3) lookup
        = .error (.script (.operandMissing .index) 1) := by
  refine ⟨⟨_, by rw [Script.read_eq]; with_unfolding_all rfl⟩, by decide +kernel, fun lookup => ?_⟩
  have hvalue : Expr.read ((Phrase.whole (Source.ofString "x[] = 1").scan.tokens).take 3) .value
      = .error (.script (.operandMissing .index) 1) := by with_unfolding_all rfl
  rw [Expr.read_rebound, hvalue]
  rfl

end ScriptReader

import ScriptReader.Proofs.Expr.Rules
import ScriptReader.Proofs.Phrase.Alike

/-!
# Proofs/Expr/Alike — an expression does not depend on the lines of its tokens

Phrases that are alike fall apart into items at the same places, and are divided at the same
operator into parts that are alike (`Phrase.Alike.lowest`).  So they are read in parallel, as the
same expression or with the same kind of error: there is one lemma for each rule of reading, and
`Expr.read_alike` ties them together.
-/

namespace ScriptReader

variable {R : Nat → Nat → Prop}

/-! ## Items -/

/-- An item's role is told by texts and kinds. -/
theorem TokensAlike.role_eq {g g' : List Token} (h : TokensAlike R g g') (previous : Option Role) :
    Role.of previous g = Role.of previous g' := by
  have hinside : TokensAlike R g.dropLast.tail g'.dropLast.tail := by
    rw [List.dropLast_eq_take, List.dropLast_eq_take, h.length_eq, ← List.drop_one,
      ← List.drop_one]
    exact List.forall₂_drop 1 (List.forall₂_take _ h)
  have hcolon := hinside.findOutside?_eq ":" 0
  have hgroup (b : Bracket) (afterOperand : Bool) :
      Role.ofGroup b afterOperand g = Role.ofGroup b afterOperand g' := by
    rw [Role.ofGroup.eq_def, Role.ofGroup.eq_def, hcolon]
  cases h with
  | nil => rfl
  | @cons t u _ _ ht _ =>
    have htoken (afterOperand : Bool) :
        Role.ofToken afterOperand t = Role.ofToken afterOperand u := by
      rw [Role.ofToken, Role.ofToken, Token.ranked?, Token.ranked?, ht.kind_eq, ht.text_eq]
    simp only [Role.of, ht.text_eq, hgroup, htoken]

/-- **The operators among items are the same ones.** -/
theorem candidates_eq {gs gs' : List (List Token)} (h : List.Forall₂ (TokensAlike R) gs gs')
    (place : Nat) (previous : Option Role) :
    (itemsFrom place previous gs).filterMap Item.candidate?
      = (itemsFrom place previous gs').filterMap Item.candidate? := by
  induction h generalizing place previous with
  | nil => rfl
  | cons hg _ ih =>
    simp only [itemsFrom, List.filterMap_cons, Item.candidate?, hg.role_eq, hg.length_eq, ih]

/-- Divisions at one operator, into parts that are alike. -/
structure Division.Alike (R : Nat → Nat → Prop) (d e : Division) : Prop where
  op_eq : d.op = e.op
  left : d.left.Alike R e.left
  right : d.right.Alike R e.right

namespace Phrase

/-- Enclosing parentheses are taken off one pair at a time. -/
theorem unwrap_eq (p : Phrase) :
    p.unwrap = p.isEnclosed .round >>= fun enclosed =>
      if enclosed then (p.trim 1).unwrap else .ok p := by
  cases h : p.isEnclosed .round with
  | error e =>
    rw [unwrap]
    split
    · next he => exact congrArg Except.error (Except.error.inj (he.symm.trans h))
    · next he => cases he.symm.trans h
    · next he => cases he.symm.trans h
  | ok enclosed =>
    cases enclosed with
    | false => exact Expr.unwrap_of_not_enclosed h
    | true => exact Expr.unwrap_of_enclosed h

namespace Alike

variable {p q : Phrase} (h : p.Alike R q)
include h

theorem groupsFrom {ts us : List Token} (hts : TokensAlike R ts us) (pos : Nat) :
    Parallel R (List.Forall₂ (TokensAlike R)) (p.groupsFrom pos ts) (q.groupsFrom pos us) := by
  fun_induction Phrase.groupsFrom p pos ts generalizing us with
  | case1 pos =>
    cases hts
    rw [Phrase.groupsFrom]
    exact .ok .nil
  | case2 pos t ts hb ih =>
    cases hts with
    | @cons _ u _ us ht hts =>
      rw [Phrase.groupsFrom, ← ht.text_eq, hb]
      exact (ih hts).map fun gs gs' hgs => .cons (.cons ht .nil) hgs
  | case3 pos t ts b hb hnone =>
    cases hts with
    | @cons _ u _ us ht hts =>
      have hpartner := TokensAlike.partner?_eq (.cons ht hts) b.openerText b.closerText 0
      rw [Phrase.groupsFrom, ← ht.text_eq, hb]
      dsimp only
      rw [← hpartner, hnone]
      exact h.refuse pos ⟨rfl, rfl, .cons (h.found pos) .nil⟩ rfl
  | case4 pos t ts b hb k hk ih =>
    cases hts with
    | @cons _ u _ us ht hts =>
      have hpartner := TokensAlike.partner?_eq (.cons ht hts) b.openerText b.closerText 0
      rw [Phrase.groupsFrom, ← ht.text_eq, hb]
      dsimp only
      rw [← hpartner, hk]
      exact (ih (List.forall₂_drop k hts)).map
        fun gs gs' hgs => .cons (.cons ht (List.forall₂_take k hts)) hgs

theorem divide (c : Candidate) : Division.Alike R (p.divide c) (q.divide c) where
  op_eq := rfl
  left := h.take c.place
  right := by
    simp only [Phrase.divide]
    repeat' split
    · exact h.slice _ _
    · exact h.drop _
    · exact h.drop _

/-- **Both are divided at the same operator**, or neither is. -/
theorem lowest : Parallel R (Option.Rel (Division.Alike R)) p.lowest q.lowest := by
  have hitems : Parallel R
      (fun xs ys => xs.filterMap Item.candidate? = ys.filterMap Item.candidate?)
      p.items q.items :=
    (h.groupsFrom h.tokens 0).map fun gs gs' hgs => candidates_eq hgs 0 none
  refine hitems.map fun xs ys hxs => ?_
  rw [hxs]
  cases Candidate.lowest? (ys.filterMap Item.candidate?) with
  | none => exact .none
  | some c => exact .some (h.divide c)

omit h in
/-- **They lose the same parentheses.** -/
theorem unwrap (h : p.Alike R q) : Parallel R (Phrase.Alike R) p.unwrap q.unwrap := by
  induction hn : p.size using Nat.strongRecOn generalizing p q with
  | ind n ih =>
    subst hn
    rw [unwrap_eq p, unwrap_eq q]
    refine (h.isEnclosed .round).bind_eq fun enclosed henclosed => ?_
    cases enclosed with
    | false => exact .ok h
    | true =>
      have hpos : 0 < p.size := p.size_pos_of_isEnclosed henclosed
      exact ih _ (size_trim_lt (by decide) hpos) (h.trim 1) rfl

end Alike

end Phrase

namespace Expr

variable {p q : Phrase}

/-! ## Names and literals -/

theorem ofToken_alike {t u : Token} (ht : t.Alike R u) (h : p.Alike R q) (lookup : Lookup) :
    Parallel R Eq (ofToken t p lookup) (ofToken u q lookup) := by
  have hfound : List.Forall₂ R [(p.found 0).line] [(q.found 0).line] := .cons (h.found 0) .nil
  rw [ofToken, ofToken, ht.kind_eq, ht.text_eq]
  repeat' split
  all_goals first | exact .ok rfl | exact h.refuse 0 ⟨rfl, rfl, hfound⟩ rfl

theorem ofOperand_alike (h : p.Alike R q) (lookup : Lookup) :
    Parallel R Eq (ofOperand p lookup) (ofOperand q lookup) := by
  have htokens := h.tokens
  rw [ofOperand, ofOperand]
  generalize p.tokens = ts at htokens ⊢
  generalize q.tokens = us at htokens ⊢
  rcases htokens with _ | ⟨ht, _ | ⟨hu, _⟩⟩
  · exact h.refuse 0 ⟨rfl, rfl, .cons (h.lineNear 0) .nil⟩ rfl
  · exact ofToken_alike ht h lookup
  · exact h.refuse 1 ⟨rfl, rfl, .cons (h.found 0) (.cons (h.found 1) .nil)⟩ rfl

/-! ## Rules -/

/-- The readings go in parallel on phrases that are alike. -/
def SubAlike (R : Nat → Nat → Prop) {n m : Nat} (sub : Sub n) (sub' : Sub m) : Prop :=
  ∀ (p q : Phrase) (hp : p.size < n) (hq : q.size < m) (lookup : Lookup), p.Alike R q →
    Parallel R Eq (sub p hp lookup) (sub' q hq lookup)

variable {n m : Nat} {sub : Sub n} {sub' : Sub m} (hsub : SubAlike R sub sub')

include hsub in
theorem readEach_alike {ps qs : List Phrase} (h : List.Forall₂ (Phrase.Alike R) ps qs)
    {hps : ∀ p ∈ ps, p.size < n} {hqs : ∀ q ∈ qs, q.size < m} :
    Parallel R Eq (readEach sub ps hps) (readEach sub' qs hqs) := by
  induction h with
  | nil => exact .ok rfl
  | cons hpq _ ih =>
    exact (hsub _ _ _ _ _ hpq).bind_eq fun _ _ => ih.bind_eq fun _ _ => .ok rfl

include hsub in
theorem readSegments_alike (separator : String) (h : p.Alike R q) {hp : p.size < n}
    {hq : q.size < m} :
    Parallel R Eq (readSegments sub separator p hp) (readSegments sub' separator q hq) :=
  readEach_alike hsub (h.segments separator)

include hsub in
theorem readArray_alike (h : p.Alike R q) {hp : (p.trim 1).size < n} {hq : (q.trim 1).size < m} :
    Parallel R Eq (readArray sub p hp) (readArray sub' q hq) := by
  refine (h.isEnclosed .square).bind_eq fun enclosed _ => ?_
  cases enclosed with
  | false => exact h.refuse 0 ⟨rfl, rfl, .cons (h.found 0) .nil⟩ rfl
  | true => exact (readSegments_alike hsub "," (h.trim 1)).bind_eq fun _ _ => .ok rfl

include hsub in
theorem readEntries_alike {ps qs : List Phrase} (h : List.Forall₂ (Phrase.Alike R) ps qs)
    {hps : ∀ p ∈ ps, p.size < n} {hqs : ∀ q ∈ qs, q.size < m} :
    Parallel R Eq (readEntries sub ps hps) (readEntries sub' qs hqs) := by
  induction h with
  | nil => exact .ok rfl
  | cons hpq _ ih =>
    rw [readEntries, readEntries]
    split
    · next hp =>
      split
      · exact hpq.refuse 0 ⟨rfl, rfl, .cons (hpq.found 0) .nil⟩ rfl
      · next hq => cases (hpq.findOutside?_eq ":").symm.trans hp |>.symm.trans hq
    · next colon hp =>
      split
      · next hq => cases (hpq.findOutside?_eq ":").symm.trans hp |>.symm.trans hq
      · next colon' hq =>
        obtain rfl : colon = colon' :=
          Option.some.inj ((hpq.findOutside?_eq ":").symm.trans hp |>.symm.trans hq)
        refine (hsub _ _ _ _ _ (hpq.take colon)).bind_eq fun _ _ => ?_
        refine (hsub _ _ _ _ _ (hpq.drop (colon + 1))).bind_eq fun _ _ => ?_
        exact ih.bind_eq fun _ _ => .ok rfl

include hsub in
theorem readDictionary_alike (h : p.Alike R q) {hp : (p.trim 1).size < n}
    {hq : (q.trim 1).size < m} :
    Parallel R Eq (readDictionary sub p hp) (readDictionary sub' q hq) := by
  refine (h.isEnclosed .curly).bind_eq fun enclosed _ => ?_
  cases enclosed with
  | false => exact h.refuse 0 ⟨rfl, rfl, .cons (h.found 0) .nil⟩ rfl
  | true => exact (readEntries_alike hsub ((h.trim 1).segments ",")).bind_eq fun _ _ => .ok rfl

include hsub in
theorem readArguments_alike {ps qs : List Phrase} (h : List.Forall₂ (Phrase.Alike R) ps qs)
    {hps : ∀ p ∈ ps, p.size < n} {hqs : ∀ q ∈ qs, q.size < m} :
    Parallel R Eq (readArguments sub ps hps) (readArguments sub' qs hqs) := by
  induction h with
  | nil => exact .ok rfl
  | @cons p q _ _ hpq _ ih =>
    have hmalformed {α : Type} : Parallel (α := α) R Eq
        (p.refuse 0 (.malformedNamedArgument p.spelling))
        (q.refuse 0 (.malformedNamedArgument q.spelling)) :=
      hpq.refuse 0 ⟨rfl, rfl, .nil⟩ rfl
    rw [readArguments, readArguments, hpq.hasOutside_eq]
    split
    · have htokens := hpq.tokens
      rw [hpq.hasText_eq]
      generalize p.tokens = ts at htokens ⊢
      generalize q.tokens = us at htokens ⊢
      rcases htokens with _ | ⟨hkey, _ | ⟨_, _ | ⟨_, _⟩⟩⟩
      · exact hmalformed
      · exact hmalformed
      · exact hmalformed
      · dsimp only
        rw [hkey.kind_eq, hkey.text_eq]
        split
        · refine (hsub _ _ _ _ _ (hpq.drop 2)).bind_eq fun _ _ => ?_
          exact ih.bind_eq fun _ _ => .ok rfl
        · exact hmalformed
    · exact (hsub _ _ _ _ _ hpq).bind_eq fun _ _ => ih.bind_eq fun _ _ => .ok rfl

include hsub in
theorem readCall_alike {arguments arguments' : Phrase} (h : p.Alike R q)
    (harguments : arguments.Alike R arguments') {hp : p.size < n} {hq : q.size < m}
    {ha : (arguments.trim 1).size < n} {ha' : (arguments'.trim 1).size < m} :
    Parallel R Eq (readCall sub p arguments hp ha) (readCall sub' q arguments' hq ha') := by
  refine (harguments.isEnclosed .round).bind_eq fun enclosed _ => ?_
  cases enclosed with
  | false => exact harguments.refuse 0 ⟨rfl, rfl, .cons (harguments.found 0) .nil⟩ rfl
  | true =>
    refine (readArguments_alike hsub ((harguments.trim 1).segments ",")).bind_eq fun read _ => ?_
    dsimp only
    rw [h.size_eq, h.textAt_eq]
    split
    · exact .ok rfl
    · exact (hsub _ _ _ _ _ h).bind_eq fun _ _ => .ok rfl

include hsub in
theorem readOperator_alike (op : Operator) {left left' right right' : Phrase}
    (hleft : left.Alike R left') (hright : right.Alike R right') {hl : left.size < n}
    {hl' : left'.size < m} {hr : right.size < n} {hr' : right'.size < m} (lookup : Lookup) :
    Parallel R Eq (readOperator sub op left right hl hr lookup)
      (readOperator sub' op left' right' hl' hr' lookup) := by
  unfold readOperator
  rw [hleft.isEmpty_eq, hright.isEmpty_eq]
  split
  · rw [hleft.size_eq]
    exact hleft.refuse _ ⟨rfl, rfl, .nil⟩ rfl
  split
  · split
    · exact (hsub _ _ _ _ _ hright).bind_eq fun _ _ => .ok rfl
    · exact hright.refuse 0 ⟨rfl, rfl, .nil⟩ rfl
  split
  · exact hright.refuse 0 ⟨rfl, rfl, .nil⟩ rfl
  refine (hsub _ _ _ _ _ hleft).bind_eq fun _ _ => ?_
  dsimp only
  split
  · have hitems : Parallel R Eq (readSegments sub ":" right hr)
        (readSegments sub' ":" right' hr') := readSegments_alike hsub ":" hright
    exact (hitems.map fun _ _ h => congrArg Expr.array h).bind_eq fun _ _ => .ok rfl
  · exact (hsub _ _ _ _ _ hright).bind_eq fun _ _ => .ok rfl

/-! ## Phrases -/

theorem readUnwrapped_of_error {sub : Sub p.size} {e : Error} (he : p.lowest = .error e)
    (lookup : Lookup) : readUnwrapped p sub lookup = .error e := by
  unfold readUnwrapped
  split
  · next he' => rw [he] at he'; cases he'; rfl
  · next hn => cases he.symm.trans hn
  · next hd => cases he.symm.trans hd

/-- A phrase without operators is an operand. -/
theorem readUnwrapped_of_undivided {sub : Sub p.size} (hn : p.lowest = .ok none)
    (lookup : Lookup) : readUnwrapped p sub lookup = ofOperand p lookup := by
  unfold readUnwrapped
  split
  · next he => cases hn.symm.trans he
  · rfl
  · next hd => cases hn.symm.trans hd

/-- How a phrase is read that is divided. -/
theorem readUnwrapped_of_lowest {sub : Sub p.size} {d : Division} (hd : p.lowest = .ok (some d))
    (lookup : Lookup) : readUnwrapped p sub lookup =
      have hpos : 0 < p.size := size_pos hd
      if ha : d.op = .array then readArray sub p (Phrase.size_trim_lt (by decide) hpos)
      else if hd' : d.op = .dictionary then
        readDictionary sub p (Phrase.size_trim_lt (by decide) hpos)
      else if hc : d.op = .call then
        readCall sub d.left d.right (Phrase.size_left_lt hd)
          (Phrase.size_trim_lt_of_le (by decide) (Phrase.size_right_le hd) hpos)
      else
        readOperator sub d.op d.left d.right (Phrase.size_left_lt hd)
          (Phrase.size_right_lt hd hc ha hd') lookup := by
  unfold readUnwrapped
  split
  · next he => cases hd.symm.trans he
  · next hn => cases hd.symm.trans hn
  · next hd' => cases hd.symm.trans hd'; rfl

theorem readUnwrapped_alike {sub : Sub p.size} {sub' : Sub q.size} (hsub : SubAlike R sub sub')
    (h : p.Alike R q) (lookup : Lookup) :
    Parallel R Eq (readUnwrapped p sub lookup) (readUnwrapped q sub' lookup) := by
  have hlowest := h.lowest
  cases hp : p.lowest <;> cases hq : q.lowest <;> rw [hp, hq] at hlowest <;> cases hlowest
  case error.error.error hread hproblem hline =>
    rw [readUnwrapped_of_error hp, readUnwrapped_of_error hq]
    exact .error hread hproblem hline
  case ok.ok.ok hd =>
    cases hd with
    | none =>
      rw [readUnwrapped_of_undivided hp, readUnwrapped_of_undivided hq]
      exact ofOperand_alike h lookup
    | some hd =>
      obtain ⟨hop, hleft, hright⟩ := hd
      rw [readUnwrapped_of_lowest hp, readUnwrapped_of_lowest hq]
      simp only [← hop]
      split
      · exact readArray_alike hsub h
      split
      · exact readDictionary_alike hsub h
      split
      · exact readCall_alike hsub hleft hright
      · exact readOperator_alike hsub _ hleft hright lookup

/-- **Phrases that are alike are read in parallel**, as the same expression. -/
theorem read_alike (h : p.Alike R q) (lookup : Lookup) :
    Parallel R Eq (read p lookup) (read q lookup) := by
  induction hn : p.size using Nat.strongRecOn generalizing p q lookup with
  | ind n ih =>
    subst hn
    by_cases hnil : p.isEmpty
    · rw [read_eq, read_eq, readStep, readStep, ← h.isEmpty_eq, if_pos hnil, if_pos hnil]
      exact .ok rfl
    · have hnil' : ¬q.isEmpty := h.isEmpty_eq ▸ hnil
      rw [read_of_ne_nil fun hp => hnil (by rw [Phrase.isEmpty, hp]; rfl),
        read_of_ne_nil fun hq => hnil' (by rw [Phrase.isEmpty, hq]; rfl)]
      refine h.unwrap.bind fun p' q' hp' h' => readUnwrapped_alike (fun r r' hr _ l hrr' => ?_) h' _
      exact ih r.size (Nat.lt_of_lt_of_le hr (Phrase.size_unwrap_le hp')) hrr' l rfl

end Expr

end ScriptReader

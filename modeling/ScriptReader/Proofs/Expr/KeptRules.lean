import ScriptReader.Proofs.Expr.Leaves
import ScriptReader.Proofs.Expr.Lost
import ScriptReader.Proofs.Source.Scanned

/-!
# Proofs/Expr/KeptRules — each rule of reading keeps the operands of its parts

`Keeps` is what the rules may rely on: the reading of smaller phrases keeps their operands but for
those lost.  There is one lemma for each rule, which says the same of what the rule reads; brackets
and separators are no operands, so that nothing is lost with them.
-/

namespace ScriptReader

namespace Phrase

variable {p q : Phrase}

/-! ## Scanned phrases -/

/-- The phrase's tokens are what their own texts read as. -/
def IsScanned (p : Phrase) : Prop := ∀ t ∈ p.tokens, t.IsLexeme

theorem IsScanned.of_subset (h : p.IsScanned) (hq : q.tokens ⊆ p.tokens) : q.IsScanned :=
  fun t ht => h t (hq ht)

theorem IsScanned.slice (h : p.IsScanned) (first last : Nat) : (p.slice first last).IsScanned := by
  refine h.of_subset ?_
  rw [tokens_slice]
  exact List.Subset.trans (List.drop_subset _ _) (List.take_subset _ _)

theorem IsScanned.segment {separator : String} (h : p.IsScanned) (hq : q ∈ p.segments separator) :
    q.IsScanned := by
  refine h.of_subset fun t ht => ?_
  rcases exists_separated separator p with ⟨-, hnil⟩ | ⟨first, others, hp, hmap, -⟩
  · rw [hnil] at hq
    cases hq
  · have hmem := List.mem_map_of_mem (f := tokens) hq
    rw [hmap, List.mem_cons] at hmem
    rw [hp, List.mem_append]
    rcases hmem with hfirst | hother
    · exact .inl (hfirst ▸ ht)
    · obtain ⟨s, hs, hsnd⟩ := List.mem_map.mp hother
      exact .inr (List.mem_flatMap.mpr ⟨s, hs, List.mem_cons_of_mem _ (hsnd ▸ ht)⟩)

/-- Separators are no operands. -/
theorem operands_segments {separator : String} (hs : separator ∈ [",", ":"]) (h : p.IsScanned) :
    operands ((p.segments separator).flatMap tokens) = operands p.tokens := by
  rcases exists_separated separator p with ⟨hp, hnil⟩ | ⟨first, others, hp, hmap, htext⟩
  · rw [hnil, hp]
    rfl
  · have hlex : ∀ s ∈ others, s.1.IsLexeme := fun s hmem => h s.1 <| by
      rw [hp]
      exact List.mem_append_right _ (List.mem_flatMap.mpr ⟨s, hmem, List.mem_cons_self⟩)
    have hpiece : ∀ separator ∈ [",", ":"],
        piece? separator.toList = some (.lexeme .operator separator.toList, []) := by decide
    rw [List.flatMap_def, hmap, hp, List.flatten_cons, operands_append, operands_append]
    congr 1
    clear hp hmap
    induction others with
    | nil => rfl
    | cons s others ih =>
      obtain ⟨hstext, htext⟩ := List.forall_mem_cons.mp htext
      obtain ⟨hslex, hlex⟩ := List.forall_mem_cons.mp hlex
      have hleaf : s.1.leaf? = none := Token.Spells.leaf?_eq_none ⟨hstext, hslex⟩ (hpiece _ hs)
      rw [List.map_cons, List.flatten_cons, operands_append, ih htext hlex, List.flatMap_cons,
        List.cons_append, operands_cons_of_none hleaf, operands_append]

theorem operands_of_isBracketed {b : Bracket} (h : p.IsScanned) (hb : IsBracketed b p.tokens) :
    operands (p.trim 1).tokens = operands p.tokens := by
  obtain ⟨o, c, inner, hp, ho, hc⟩ := hb
  have hlex : ∀ t ∈ o :: (inner ++ [c]), t.IsLexeme := hp ▸ h
  have hopener : o.leaf? = none :=
    Token.Spells.leaf?_eq_none ⟨ho, hlex o List.mem_cons_self⟩ (by cases b <;> rfl)
  have hcloser : c.leaf? = none :=
    Token.Spells.leaf?_eq_none ⟨hc, hlex c (by simp)⟩ (by cases b <;> rfl)
  rw [hp, operands_bracketed hopener hcloser, tokens_trim_of_bracketed hp]

/-- Parentheses around a phrase are no operands. -/
theorem operands_unwrap (h : p.IsScanned) (hq : p.unwrap = .ok q) :
    q.IsScanned ∧ operands q.tokens = operands p.tokens := by
  fun_induction unwrap p with
  | case1 => cases hq
  | case2 =>
    cases hq
    exact ⟨h, rfl⟩
  | case3 p henclosed _ ih =>
    obtain ⟨hscanned, heq⟩ := ih (h.slice _ _) hq
    exact ⟨hscanned, heq.trans (operands_of_isBracketed h (isBracketed_of_isEnclosed henclosed))⟩

end Phrase

namespace Expr

/-! ## Rules -/

/-- **The reading keeps what it reads**, but for what is lost. -/
def Keeps {n : Nat} (sub : Sub n) : Prop :=
  ∀ (q : Phrase) (hq : q.size < n) (lookup : Lookup) (e : Expr), q.IsScanned →
    sub q hq lookup = .ok e → Kept e.leaves q.lost q.tokens

theorem exists_of_bind_ok {ε α β : Type} {x : Except ε α} {f : α → Except ε β} {b : β}
    (h : x >>= f = .ok b) : ∃ a, x = .ok a ∧ f a = .ok b := by
  cases x with
  | error => cases h
  | ok a => exact ⟨a, rfl, h⟩

variable {n : Nat} {sub : Sub n} (hsub : Keeps sub)

/-- What a single token writes is its leaf. -/
theorem leaves_ofToken {t : Token} {p : Phrase} {lookup : Lookup} {e : Expr}
    (h : ofToken t p lookup = .ok e) : ∃ leaf, t.leaf? = some leaf ∧ e.leaves = {leaf} := by
  unfold ofToken at h
  split at h
  · next hkind =>
    split at h
    · next ht =>
      cases h
      exact ⟨.constant (.boolean true), by rw [Token.leaf?, hkind, ht]; rfl, by rw [leaves]⟩
    split at h
    · next ht =>
      cases h
      exact ⟨.constant (.boolean false), by rw [Token.leaf?, hkind, ht]; rfl, by rw [leaves]⟩
    split at h
    · next ht =>
      cases h
      exact ⟨.nothing, by rw [Token.leaf?, hkind, ht]; rfl, by rw [nothing, leaves]; rfl⟩
    · cases h
  · next hkind =>
    cases h
    exact ⟨.word t.text, by rw [Token.leaf?, hkind], by rw [leaves]⟩
  · next hkind =>
    cases h
    exact ⟨_, by rw [Token.leaf?, hkind], by rw [text, leaves, hkind]⟩
  · next hkind =>
    cases h
    exact ⟨_, by rw [Token.leaf?, hkind], by rw [text, leaves, hkind]⟩
  · next hkind =>
    cases h
    exact ⟨_, by rw [Token.leaf?, hkind], by rw [text, leaves, hkind]⟩
  · next hkind =>
    split at h
    · next x hx =>
      cases h
      exact ⟨.constant (.number x), by simp only [Token.leaf?, hkind, hx], by rw [leaves]⟩
    · cases h
  · cases h
  · cases h

theorem kept_ofOperand {p : Phrase} {lookup : Lookup} {e : Expr}
    (h : ofOperand p lookup = .ok e) : Kept e.leaves [] p.tokens := by
  unfold ofOperand at h
  split at h
  · cases h
  · next t hp =>
    obtain ⟨leaf, hleaf, he⟩ := leaves_ofToken h
    rw [he, hp]
    exact .operand hleaf
  · cases h

include hsub in
theorem kept_readEach {ps : List Phrase} {hps : ∀ p ∈ ps, p.size < n} {es : List Expr}
    (hscanned : ∀ p ∈ ps, p.IsScanned) (h : readEach sub ps hps = .ok es) :
    Kept (leavesAll es) (ps.flatMap Phrase.lost) (ps.flatMap Phrase.tokens) := by
  induction ps generalizing es with
  | nil =>
    cases h
    exact .nil
  | cons p ps ih =>
    rw [readEach] at h
    obtain ⟨e, he, h⟩ := exists_of_bind_ok h
    obtain ⟨es, hes, h⟩ := exists_of_bind_ok h
    cases h
    have hp := hsub p _ .value e (hscanned p List.mem_cons_self) he
    rw [List.flatMap_cons, List.flatMap_cons, leavesAll]
    exact hp.append (ih (fun q hq => hscanned q (List.mem_cons_of_mem _ hq)) hes)

include hsub in
theorem kept_readSegments {separator : String} (hs : separator ∈ [",", ":"]) {p : Phrase}
    {hp : p.size < n} {es : List Expr} (hscanned : p.IsScanned)
    (h : readSegments sub separator p hp = .ok es) :
    Kept (leavesAll es) ((p.segments separator).flatMap Phrase.lost) p.tokens :=
  (kept_readEach hsub (fun _ hq => hscanned.segment hq) h).congr
    (Phrase.operands_segments hs hscanned)

include hsub in
theorem kept_readArray {p : Phrase} {hp : (p.trim 1).size < n} {e : Expr}
    (hscanned : p.IsScanned) (h : readArray sub p hp = .ok e) :
    Kept e.leaves (((p.trim 1).segments ",").flatMap Phrase.lost) p.tokens := by
  obtain ⟨enclosed, henclosed, h⟩ := exists_of_bind_ok h
  cases enclosed with
  | false => cases h
  | true =>
    obtain ⟨es, hes, h⟩ := exists_of_bind_ok h
    cases h
    rw [leaves]
    exact (kept_readSegments hsub (by decide) (hscanned.slice _ _) hes).congr
      (Phrase.operands_of_isBracketed hscanned (Phrase.isBracketed_of_isEnclosed henclosed))

/-- Where a text is found there is a token with this text. -/
theorem exists_of_findOutside? {text : String} {depth k : Nat} {ts : List Token}
    (h : findOutside? text depth ts = some k) :
    ∃ t : Token, t.text = text ∧ ts = ts.take k ++ t :: ts.drop (k + 1) := by
  fun_induction findOutside? text depth ts generalizing k with
  | case1 => cases h
  | case2 _ t ts ht =>
    cases h
    exact ⟨t, ht.2, rfl⟩
  | case3 _ u ts _ ih =>
    obtain ⟨j, hj, rfl⟩ := Option.map_eq_some_iff.mp h
    obtain ⟨t, ht, hts⟩ := ih hj
    exact ⟨t, ht, congrArg (u :: ·) hts⟩

/-- An entry's colon is no operand. -/
theorem kept_entry {p : Phrase} {colon : Nat} {key value : Expr} (hscanned : p.IsScanned)
    (hcolon : p.findOutside? ":" = some colon)
    (hkey : Kept key.leaves (p.take colon).lost (p.take colon).tokens)
    (hvalue : Kept value.leaves (p.drop (colon + 1)).lost (p.drop (colon + 1)).tokens) :
    Kept (key.leaves + value.leaves) (p.sides.flatMap Phrase.lost) p.tokens := by
  obtain ⟨t, ht, htokens⟩ := exists_of_findOutside? hcolon
  have hleaf : t.leaf? = none :=
    Token.Spells.leaf?_eq_none ⟨ht, hscanned t (by rw [htokens]; simp)⟩ rfl
  have hsides : p.sides.flatMap Phrase.lost
      = (p.take colon).lost ++ (p.drop (colon + 1)).lost := by
    rw [Phrase.sides, hcolon, List.flatMap_cons, List.flatMap_singleton]
  rw [hsides]
  refine (hkey.append hvalue).congr ?_
  rw [htokens, Phrase.tokens_take, Phrase.tokens_drop, operands_append, operands_append,
    operands_cons_of_none hleaf]

include hsub in
theorem kept_readEntries {ps : List Phrase} {hps : ∀ p ∈ ps, p.size < n}
    {entries : List (Expr × Expr)} (hscanned : ∀ p ∈ ps, p.IsScanned)
    (h : readEntries sub ps hps = .ok entries) :
    Kept (leavesEntries entries) ((ps.flatMap Phrase.sides).flatMap Phrase.lost)
      (ps.flatMap Phrase.tokens) := by
  induction ps generalizing entries with
  | nil =>
    cases h
    exact .nil
  | cons p ps ih =>
    obtain ⟨hp, hscanned⟩ := List.forall_mem_cons.mp hscanned
    rw [readEntries] at h
    split at h
    · cases h
    · next colon hcolon =>
      obtain ⟨key, hkey, h⟩ := exists_of_bind_ok h
      obtain ⟨value, hvalue, h⟩ := exists_of_bind_ok h
      obtain ⟨entries, hentries, h⟩ := exists_of_bind_ok h
      cases h
      rw [List.flatMap_cons, List.flatMap_append, List.flatMap_cons, leavesEntries]
      exact (kept_entry hp hcolon (hsub _ _ _ _ (hp.slice _ _) hkey)
        (hsub _ _ _ _ (hp.slice _ _) hvalue)).append (ih hscanned hentries)

include hsub in
theorem kept_readDictionary {p : Phrase} {hp : (p.trim 1).size < n} {e : Expr}
    (hscanned : p.IsScanned) (h : readDictionary sub p hp = .ok e) :
    Kept e.leaves ((((p.trim 1).segments ",").flatMap Phrase.sides).flatMap Phrase.lost)
      p.tokens := by
  obtain ⟨enclosed, henclosed, h⟩ := exists_of_bind_ok h
  cases enclosed with
  | false => cases h
  | true =>
    obtain ⟨entries, hentries, h⟩ := exists_of_bind_ok h
    cases h
    have htrim : (p.trim 1).IsScanned := hscanned.slice _ _
    rw [leaves]
    refine (kept_readEntries hsub (fun _ hq => htrim.segment hq) hentries).congr ?_
    rw [Phrase.operands_segments (by decide) htrim]
    exact Phrase.operands_of_isBracketed hscanned (Phrase.isBracketed_of_isEnclosed henclosed)

/-- The name of an argument is a word, and the equals sign no operand. -/
theorem kept_named {p : Phrase} {key equals : Token} {ts : List Token} {value : Expr}
    (hscanned : p.IsScanned) (hp : p.tokens = key :: equals :: ts) (hkey : key.kind = .identifier)
    (hequals : p.hasText 1 "=")
    (hvalue : Kept value.leaves (p.drop 2).lost (p.drop 2).tokens) :
    Kept ({.word key.text} + value.leaves) (p.drop 2).lost p.tokens := by
  rw [Phrase.hasText, hp, beq_iff_eq] at hequals
  have hleaf : equals.leaf? = none := Token.Spells.leaf?_eq_none
    ⟨Option.some.inj hequals, hscanned equals (by rw [hp]; simp)⟩ rfl
  have hword : key.leaf? = some (.word key.text) := by rw [Token.leaf?, hkey]
  refine ((Kept.operand hword).append hvalue).congr ?_
  rw [Phrase.tokens_drop_two hp, hp, operands_append, operands_cons key (equals :: _),
    operands_cons_of_none hleaf]

include hsub in
theorem kept_readArguments {ps : List Phrase} {hps : ∀ p ∈ ps, p.size < n}
    {named : List (Expr × Expr)} {others : List Expr} (hscanned : ∀ p ∈ ps, p.IsScanned)
    (h : readArguments sub ps hps = .ok (named, others)) :
    Kept (leavesNamed named + leavesAll others) ((ps.map Phrase.argument).flatMap Phrase.lost)
      (ps.flatMap Phrase.tokens) := by
  induction ps generalizing named others with
  | nil =>
    cases h
    exact .nil
  | cons p ps ih =>
    obtain ⟨hp, hscanned⟩ := List.forall_mem_cons.mp hscanned
    rw [List.map_cons, List.flatMap_cons, List.flatMap_cons]
    rw [readArguments] at h
    split at h
    · next hequals =>
      split at h
      · next key equals first rest htokens =>
        split at h
        · next hkey =>
          obtain ⟨value, hvalue, h⟩ := exists_of_bind_ok h
          obtain ⟨⟨named, others⟩, hrest, h⟩ := exists_of_bind_ok h
          cases h
          have hkept := kept_named hp htokens hkey.1 hkey.2 (hsub _ _ _ _ (hp.slice _ _) hvalue)
          rw [Phrase.argument, if_pos hequals, leavesNamed, add_assoc]
          exact hkept.append (ih hscanned hrest)
        · cases h
      · cases h
    · next hequals =>
      obtain ⟨e, he, h⟩ := exists_of_bind_ok h
      obtain ⟨⟨named, others⟩, hrest, h⟩ := exists_of_bind_ok h
      cases h
      have hkept := (hsub p _ .value e hp he).append (ih hscanned hrest)
      rw [Phrase.argument, if_neg hequals, leavesAll, add_left_comm]
      exact hkept

/-- The name of a built-in function is a leaf as any word is. -/
theorem kept_builtIn {callee : Phrase} {function : BuiltIn} (hscanned : callee.IsScanned)
    (hsize : callee.size = 1) (h : BuiltIn.ofName? (callee.textAt 0) = some function) :
    Kept {.word function.name} callee.lost callee.tokens := by
  obtain ⟨t, ht⟩ := List.length_eq_one_iff.mp hsize
  have hname := List.find?_some h
  rw [beq_iff_eq, Phrase.textAt, ht] at hname
  have hspells : t.Spells function.name :=
    ⟨hname.symm, hscanned t (by rw [ht]; exact List.mem_singleton.mpr rfl)⟩
  have hword := isIdentifier_of_spells_builtIn hspells
  rw [Phrase.lost_of_word ht hword, ht]
  exact .operand (by rw [Token.leaf?, hword.kind_eq, hspells.text_eq])

include hsub in
theorem kept_readCall {callee arguments : Phrase} {hc : callee.size < n}
    {ha : (arguments.trim 1).size < n} {e : Expr} (hcallee : callee.IsScanned)
    (harguments : arguments.IsScanned) (h : readCall sub callee arguments hc ha = .ok e) :
    Kept e.leaves (callee.lost
        ++ (((arguments.trim 1).segments ",").map Phrase.argument).flatMap Phrase.lost)
      (callee.tokens ++ arguments.tokens) := by
  obtain ⟨enclosed, henclosed, h⟩ := exists_of_bind_ok h
  cases enclosed with
  | false => cases h
  | true =>
    obtain ⟨⟨named, others⟩, hread, h⟩ := exists_of_bind_ok h
    have htrim : (arguments.trim 1).IsScanned := harguments.slice _ _
    have hkept := (kept_readArguments hsub (fun _ hq => htrim.segment hq) hread).congr
      ((Phrase.operands_segments (by decide) htrim).trans
        (Phrase.operands_of_isBracketed harguments (Phrase.isBracketed_of_isEnclosed henclosed)))
    simp only at h
    split at h
    · next function hfunction =>
      cases h
      split at hfunction
      · next hsize =>
        rw [leaves, leavesArguments]
        exact (kept_builtIn hcallee hsize hfunction).append hkept
      · cases hfunction
    · obtain ⟨f, hf, h⟩ := exists_of_bind_ok h
      cases h
      rw [leaves, leavesArguments]
      exact (hsub callee hc .reference f hcallee hf).append hkept

/-- The phrases that the right operand is read from. -/
def rightParts (op : Operator) (right : Phrase) : List Phrase :=
  if op = .slice then right.segments ":" else [right]

include hsub in
theorem kept_readOperator {op : Operator} {left right : Phrase} {hl : left.size < n}
    {hr : right.size < n} {lookup : Lookup} {e : Expr} (hleft : left.IsScanned)
    (hright : right.IsScanned) (h : readOperator sub op left right hl hr lookup = .ok e) :
    Kept e.leaves (left.lost ++ (rightParts op right).flatMap Phrase.lost)
      (left.tokens ++ right.tokens) := by
  unfold readOperator at h
  split at h
  · cases h
  split at h
  · next hempty =>
    split at h
    · next hsign =>
      obtain ⟨r, hread, h⟩ := exists_of_bind_ok h
      cases h
      have hop : op ≠ .slice := by rintro rfl; cases hsign
      have hnil : left.tokens = [] := List.isEmpty_iff.mp hempty
      rw [leaves, Phrase.lost_of_nil hnil, hnil, rightParts, if_neg hop, List.flatMap_singleton]
      exact hsub right hr .value r hright hread
    · cases h
  split at h
  · cases h
  obtain ⟨l, hlread, h⟩ := exists_of_bind_ok h
  have hkept := hsub left hl _ l hleft hlread
  dsimp only at h
  split at h
  · next hop =>
    obtain ⟨r, hread, h⟩ := exists_of_bind_ok h
    cases h
    cases hes : readSegments sub ":" right hr with
    | error => rw [hes] at hread; cases hread
    | ok es =>
      rw [hes] at hread
      cases hread
      rw [leaves, leaves, rightParts, if_pos hop]
      exact hkept.append (kept_readSegments hsub (by decide) hright hes)
  · next hop =>
    obtain ⟨r, hread, h⟩ := exists_of_bind_ok h
    cases h
    rw [leaves, rightParts, if_neg hop, List.flatMap_singleton]
    exact hkept.append (hsub right hr lookup r hright hread)

end Expr

end ScriptReader

import ScriptReader.Proofs.Expr.RoundTrip
import ScriptReader.Proofs.Script.Written

/-!
# Proofs/Script/Lines — a statement that is written on one line is read from it

A written line begins with a word of its own, or with what begins an operand (`Written.head`), so
that it is told apart by its first token.  The operator of an assignment is the first one outside
brackets, and the indices before it are read from right to left (`Phrase.readIndices_eq`).
`Stmt.WrittenOnLine.read` says what is read from the line.
-/

namespace ScriptReader

open ScriptReader.Bracket

/-! ## What a line begins with -/

/-- The words that tell statements apart, and those that end a body. -/
def statementWords : List String :=
  ["if", "while", "for", "def", "continue", "break", "return", "print", "elif", "else", "end"]

theorem piece?_of_mem_statementWords : ∀ s ∈ statementWords,
    piece? s.toList = some (.lexeme .keyword s.toList, []) := by decide

/-- A word that begins a statement is no bracket. -/
theorem Token.isPlain_of_mem_statementWords {t : Token} (h : t.text ∈ statementWords) :
    t.IsPlain :=
  have hbracket : ∀ text ∈ statementWords,
      ofOpenerText? text = none ∧ ofCloserText? text = none := by decide
  ⟨(hbracket t.text h).1, (hbracket t.text h).2⟩

theorem isPlain_of_statementWord {t : Token} {text : String} (ht : t.Spells text)
    (htext : text ∈ statementWords) : t.IsPlain :=
  Token.isPlain_of_mem_statementWords (ht.text_eq ▸ htext)

/-- A token that is no keyword does not begin a statement of its own. -/
theorem Token.IsLexeme.not_mem_statementWords {t : Token} (ht : t.IsLexeme)
    (hkind : t.kind ≠ .keyword) : t.text ∉ statementWords := fun h =>
  hkind (ht.kind_eq rfl (piece?_of_mem_statementWords t.text h))

/-- **An expression does not begin like another statement.** -/
theorem Written.head {k : Nat} {e : Expr} {ts : List Token} (h : Written k e ts) :
    ∃ t rest, ts = t :: rest ∧ t.text ∉ statementWords := by
  have append {as bs : List Token} :
      (∃ t rest, as = t :: rest ∧ t.text ∉ statementWords) →
        ∃ t rest, as ++ bs = t :: rest ∧ t.text ∉ statementWords := by
    rintro ⟨t, rest, rfl, ht⟩
    exact ⟨t, rest ++ bs, rfl, ht⟩
  have bracket {b : Bracket} {o : Token} (ho : o.Spells b.openerText) :
      o.text ∉ statementWords := by
    rw [ho.text_eq]
    cases b <;> decide
  induction h with
  | name ht =>
    exact ⟨_, _, rfl, ht.isLexeme.not_mem_statementWords (by rw [ht.kind_eq]; decide)⟩
  | nothing ht => exact ⟨_, _, rfl, by rw [ht.text_eq]; decide⟩
  | boolean b ht => exact ⟨_, _, rfl, by rw [ht.text_eq]; cases b <;> decide⟩
  | number ht hkind => exact ⟨_, _, rfl, ht.not_mem_statementWords (by rw [hkind]; decide)⟩
  | text ht hkind =>
    refine ⟨_, _, rfl, ht.not_mem_statementWords fun h => ?_⟩
    rw [h] at hkind
    exact absurd hkind (by decide)
  | parentheses hb => exact ⟨_, _, rfl, bracket hb.opener⟩
  | @unary k op e t ts hop _ ht =>
    refine ⟨_, _, rfl, ?_⟩
    rw [ht.text_eq]
    exact (by decide : ∀ op ∈ Operator.all, op.symbol ∉ statementWords) op op.mem_all
  | binary _ _ _ _ _ ihl => exact append ihl
  | index _ _ _ _ ihe => exact append ihe
  | slice _ _ _ _ _ _ ihe => exact append ihe
  | array _ hb => exact ⟨_, _, rfl, bracket hb.opener⟩
  | dictionary _ hb => exact ⟨_, _, rfl, bracket hb.opener⟩
  | call _ _ _ _ _ _ _ ihcallee => exact append ihcallee
  | @builtIn k function t o c ts xs _ ht =>
    refine ⟨_, _, rfl, ?_⟩
    rw [ht.text_eq]
    cases function <;> decide

theorem Written.ne_nil {k : Nat} {e : Expr} {ts : List Token} (h : Written k e ts) : ts ≠ [] :=
  h.row.ne_nil

namespace Phrase

variable {p : Phrase} {ts : List Token}

theorem textAt_zero {t : Token} (hp : p.tokens = t :: ts) : p.textAt 0 = t.text := by
  rw [textAt, hp]
  rfl

theorem startsWith_eq {t : Token} (hp : p.tokens = t :: ts) (text : String) :
    p.startsWith text = (t.text == text) := by
  rw [startsWith, hasText, hp]
  rfl

end Phrase

/-! ## Lines told apart -/

namespace Line

variable {p : Phrase}

theorem read_if (h : p.textAt 0 = "if") :
    Line.read p = (Line.choice · p.inlineBody?) <$> p.readCondition := by
  simp only [Line.read, h]

theorem read_while (h : p.textAt 0 = "while") :
    Line.read p = (fun c => opening (.whileLoop c) p.inlineBody?) <$> p.readCondition := by
  simp only [Line.read, h]

theorem read_for (h : p.textAt 0 = "for") :
    Line.read p = (opening · p.inlineBody?) <$> p.readForHeader := by
  simp only [Line.read, h]

theorem read_def (h : p.textAt 0 = "def") :
    Line.read p = (opening · p.inlineBody?) <$> p.readFunctionHeader := by
  simp only [Line.read, h]

theorem read_print (h : p.textAt 0 = "print") :
    Line.read p = (complete <| .print ·) <$> Expr.readList "," (p.drop 1) := by
  simp only [Line.read, h]

theorem read_jump {kind : Jump} (h : p.textAt 0 = kind.keyword) :
    Line.read p = complete <$> p.readJump kind := by
  cases kind <;> simp only [Line.read, h, Jump.keyword]

/-- A line without a word of its own is an assignment or an expression. -/
theorem read_other (h : p.textAt 0 ∉ statementWords) :
    Line.read p = match p.assignment? with
      | some (pos, lookup) => complete <$> p.readAssignmentAt pos lookup
      | none => (complete <| .expression ·) <$> Expr.read p .value := by
  have hassign : p.assignment?.isSome = (p.hasOutside "=" || p.hasOutside ":=") := by
    rw [Phrase.assignment?, Phrase.hasOutside, Phrase.hasOutside]
    cases p.findOutside? "=" with
    | none => rw [Option.isSome_map, Option.isSome_none, Bool.false_or]
    | some pos => rfl
  unfold Line.read
  split
  case h_9 =>
    rw [← hassign, Phrase.readAssignment]
    cases p.assignment? <;> rfl
  all_goals next heq => exact absurd (heq ▸ h) (by decide)

end Line

/-! ## What can be bound -/

namespace Expr.IsBindable

variable {e : Expr}

theorem isTarget_placed (h : e.IsBindable) (lookup : Lookup) :
    (e.placed lookup).isTarget = true := by cases h <;> rfl

/-- What is read at the phrase can be bound. -/
theorem readTarget (h : e.IsBindable) {p : Phrase} {lookup : Lookup}
    (hr : Expr.read p lookup = .ok (e.placed lookup)) :
    Expr.readTarget p lookup = .ok (e.placed lookup) := by
  rw [Expr.readTarget, hr]
  simp only [bind, Except.bind, h.isTarget_placed lookup, if_true]
  rfl

end Expr.IsBindable

/-- The last token is no closing square bracket. -/
def NotIndexed (ts : List Token) : Prop := ∀ t ∈ ts.getLast?, t.text ≠ square.closerText

theorem notIndexed_append (as : List Token) {bs : List Token} (hb : NotIndexed bs) (hne : bs ≠ []) :
    NotIndexed (as ++ bs) := fun t ht =>
  hb t (by rwa [List.getLast?_append, List.getLast?_eq_some_getLast hne, Option.some_or,
    ← List.getLast?_eq_some_getLast hne] at ht)

theorem notIndexed_parentheses {o c : Token} {ts : List Token} (hb : Encloses .round o c) :
    NotIndexed (o :: (ts ++ [c])) := by
  refine notIndexed_append (o :: ts) (fun t ht => ?_) (List.cons_ne_nil c [])
  obtain rfl : c = t := by simpa using ht
  rw [hb.closer.text_eq]
  decide

theorem Written.notIndexed_name {k : Nat} {identifier : String} {lookup : Lookup}
    {ts : List Token} (h : Written k (.name identifier lookup) ts) : NotIndexed ts := by
  cases h with
  | @name _ t _ ht =>
    intro u hu
    obtain rfl : t = u := by simpa using hu
    exact ht.isPlain.ne_closerText .square
  | parentheses hb => exact notIndexed_parentheses hb

/-- **What can be bound does not end in an index.** -/
theorem Written.notIndexed {k : Nat} {e : Expr} {ts : List Token} (h : Written k e ts)
    (he : e.IsBindable) : NotIndexed ts := by
  cases he with
  | name => exact h.notIndexed_name
  | member =>
    cases h with
    | binary _ _ _ _ hr =>
      refine notIndexed_append _ (notIndexed_append [_] hr.notIndexed_name hr.ne_nil) ?_
      exact List.cons_ne_nil _ _
    | parentheses hb => exact notIndexed_parentheses hb

/-! ## Statements on one line -/

/-- Phrases with the tokens of what they write are read one by one. -/
theorem mapM_eq_of_tokens {α β : Type} {f : Phrase → Except Error β} {g : α → β}
    {tokens : α → List Token} {ps : List Phrase} {xs : List α}
    (hps : ps.map Phrase.tokens = xs.map tokens)
    (h : ∀ x ∈ xs, ∀ p : Phrase, p.tokens = tokens x → f p = .ok (g x)) :
    ps.mapM f = .ok (xs.map g) := by
  have hforall := Phrase.forall₂_of_map_tokens hps
  clear hps
  induction hforall with
  | nil => rfl
  | @cons p x ps xs hp _ ih =>
    obtain ⟨hx, h⟩ := List.forall_mem_cons.mp h
    rw [List.mapM_cons, hx p hp, ih h]
    rfl

/-- Written expressions between separators. -/
theorem readList_eq {items : List (Expr × List Token)} {ts : List Token} {p : Phrase}
    (hp : p.tokens = ts) (hitems : ∀ x ∈ items, Written 0 x.1 x.2)
    (hj : Joined "," (items.map (·.2)) ts) :
    Expr.readList "," p = .ok (Expr.placedAll (items.map (·.1))) := by
  have hsegments := Phrase.tokens_segments hp hj (List.forall_mem_map.mpr fun x hx =>
    (hitems x hx).row.isSegment (by decide))
  rw [Expr.placedAll_eq_map, List.map_map]
  exact mapM_eq_of_tokens hsegments fun x hx q hq => (hitems x hx).reads q .value hq

theorem Phrase.readJump_eq {kind : Jump} {keyword : Token} {e : Expr} {ts : List Token}
    {p : Phrase} (hp : p.tokens = keyword :: ts) (hkind : kind ≠ .continueLoop)
    (h : Written 0 e ts) : p.readJump kind = .ok (.jump kind (some (e.placed .value))) := by
  have hdrop : (p.drop 1).tokens = ts := tokens_drop_one hp
  have hne : (p.drop 1).isEmpty = false := isEmpty_eq_false (by rw [hdrop]; exact h.ne_nil)
  rw [readJump]
  simp only [hne, hkind, h.reads _ _ hdrop]
  rfl

theorem Phrase.readJump_eq_none {kind : Jump} {keyword : Token} {p : Phrase}
    (hp : p.tokens = [keyword]) : p.readJump kind = .ok (.jump kind none) := by
  have hempty : (p.drop 1).isEmpty = true := by
    rw [isEmpty, tokens_drop, hp]
    rfl
  rw [readJump, if_pos hempty]

/-! ## Assignments -/

/-- Indices hide what their brackets hold together. -/
theorem WrittenIndex.hides_flatMap {xs : List WrittenIndex}
    (hb : ∀ x ∈ xs, Encloses .square x.opener x.closer)
    (hx : ∀ x ∈ xs, Written 0 x.index x.indexTokens) {text : String}
    (hne : square.openerText ≠ text) : Hides text (xs.flatMap tokens) := by
  induction xs with
  | nil => exact .nil
  | cons x xs ih =>
    obtain ⟨hbx, hb⟩ := List.forall_mem_cons.mp hb
    obtain ⟨hwritten, hx⟩ := List.forall_mem_cons.mp hx
    rw [List.flatMap_cons]
    exact (Hides.bracketed .square hbx.opener.text_eq hbx.closer.text_eq hwritten.row.nested
      hne).append (ih hb hx)

/-- Without indices before it, a position is the target's end. -/
theorem Phrase.readIndices_of_notIndexed {p : Phrase} {ts rest : List Token} {later : List Expr}
    (hp : p.tokens = ts ++ rest) (hts : NotIndexed ts) :
    p.readIndices ts.length later = .ok (ts.length, later) := by
  rw [readIndices, dif_neg]
  rintro ⟨hpos, htext⟩
  obtain ⟨init, t, rfl⟩ : ∃ init t, ts = init ++ [t] :=
    ⟨_, _, (List.dropLast_concat_getLast (List.ne_nil_of_length_pos hpos)).symm⟩
  rw [hasText, hp, List.length_append, List.length_singleton, Nat.add_sub_cancel,
    List.append_assoc, List.getElem?_append_right (Nat.le_refl _), Nat.sub_self,
    List.singleton_append, List.getElem?_cons_zero, Option.map_some, beq_iff_eq,
    Option.some.injEq] at htext
  exact hts t (by simp) htext

/-- **What brackets before a position hold together is read**, and what is before them goes on from
there. -/
theorem Phrase.readIndices_bracketed {p : Phrase} {o c : Token} {as ts rest : List Token}
    (hp : p.tokens = as ++ o :: (ts ++ c :: rest)) (hb : Encloses .square o c) (hts : Nested ts)
    (later : List Expr) :
    p.readIndices (as.length + (ts.length + 2)) later
      = (Expr.read (p.slice (as.length + 1) (as.length + ts.length + 1)) .value).bind
          fun index => p.readIndices as.length (index :: later) := by
  have hopener := openerOf_eq .square hp hb.opener.text_eq hb.closer.text_eq hts
  have htext : p.hasText (as.length + ts.length + 1) square.closerText = true := by
    rw [hasText, getElem?_of_bracketed hp, Option.map_some, hb.closer.text_eq]
    exact beq_self_eq_true _
  have hlast : as.length + (ts.length + 2) - 1 = as.length + ts.length + 1 := by omega
  rw [readIndices, dif_pos ⟨by omega, by rw [hlast]; exact htext⟩]
  split
  · next he => cases hopener.symm.trans (hlast ▸ he)
  · next first hfirst =>
    obtain rfl : as.length = first := Except.ok.inj (hopener.symm.trans (hlast ▸ hfirst))
    simp only [hlast]
    cases Expr.read (p.slice (as.length + 1) (as.length + ts.length + 1)) .value <;> rfl

/-- So is a written index. -/
theorem Phrase.readIndices_snoc {p : Phrase} {x : WrittenIndex} {as rest : List Token}
    {later : List Expr} (hp : p.tokens = as ++ (x.tokens ++ rest))
    (hb : Encloses .square x.opener x.closer) (hx : Written 0 x.index x.indexTokens) :
    p.readIndices (as.length + x.tokens.length) later
      = p.readIndices as.length (x.index.placed .value :: later) := by
  have hsplit : p.tokens = as ++ x.opener :: (x.indexTokens ++ x.closer :: rest) := by
    rw [hp, WrittenIndex.tokens]
    simp
  have hlength : x.tokens.length = x.indexTokens.length + 2 := by simp [WrittenIndex.tokens]
  rw [hlength, readIndices_bracketed hsplit hb hx.row.nested,
    hx.reads _ .value (tokens_slice_of_bracketed hsplit)]
  rfl

/-- **Indices are read from right to left**, up to what they are indices of. -/
theorem Phrase.readIndices_eq {p : Phrase} {xs : List WrittenIndex} {ts rest : List Token}
    {later : List Expr} (hp : p.tokens = ts ++ (xs.flatMap WrittenIndex.tokens ++ rest))
    (hts : NotIndexed ts) (hb : ∀ x ∈ xs, Encloses .square x.opener x.closer)
    (hx : ∀ x ∈ xs, Written 0 x.index x.indexTokens) :
    p.readIndices (ts.length + (xs.flatMap WrittenIndex.tokens).length) later
      = .ok (ts.length, Expr.placedAll (xs.map (·.index)) ++ later) := by
  obtain ⟨ys, rfl⟩ : ∃ ys, xs = ys.reverse := ⟨xs.reverse, (List.reverse_reverse xs).symm⟩
  -- the induction is on the indices from the right, as they are met
  induction ys generalizing rest later with
  | nil => exact readIndices_of_notIndexed hp hts
  | cons x ys ih =>
    have hflat : (x :: ys).reverse.flatMap WrittenIndex.tokens
        = ys.reverse.flatMap WrittenIndex.tokens ++ x.tokens := by simp
    have hmem {y : WrittenIndex} (hy : y ∈ ys.reverse) : y ∈ (x :: ys).reverse := by
      rw [List.reverse_cons]
      exact List.mem_append_left _ hy
    have hxs : x ∈ (x :: ys).reverse := by simp
    rw [hflat, List.append_assoc] at hp
    rw [hflat, List.length_append, ← Nat.add_assoc, ← List.length_append,
      readIndices_snoc (by rw [hp, List.append_assoc]) (hb x hxs) (hx x hxs), List.length_append,
      ih hp (fun y hy => hb y (hmem hy)) fun y hy => hx y (hmem hy)]
    simp [Expr.placedAll_eq_map]

/-- The operator of an assignment stands behind target and indices. -/
theorem Phrase.assignment?_eq {p : Phrase} {lookup : Lookup} {operator : Token}
    {as vs : List Token} (hp : p.tokens = as ++ operator :: vs)
    (ha : ∀ text ∈ ["=", ":="], Hides text as) (hv : Hides "=" vs)
    (ho : AssignmentOperator lookup operator) : p.assignment? = some (as.length, lookup) := by
  cases ho with
  | binding ht =>
    have hfind : p.findOutside? "=" = some as.length := by
      rw [findOutside?, hp]
      exact (ha "=" (by decide)).findOutside?_append_cons ht.text_eq
    rw [assignment?, hfind]
  | rebinding ht =>
    have hnone : p.findOutside? "=" = none := by
      rw [findOutside?, hp]
      exact ((ha "=" (by decide)).append
        (hv.cons (ht.isPlain rfl rfl) (by rw [ht.text_eq]; decide))).free
    have hfind : p.findOutside? ":=" = some as.length := by
      rw [findOutside?, hp]
      exact (ha ":=" (by decide)).findOutside?_append_cons ht.text_eq
    rw [assignment?, hnone, hfind]
    rfl

/-- A target with its indices shows no operator of an assignment. -/
theorem hides_target {k : Nat} {target : Expr} {ts : List Token} {xs : List WrittenIndex}
    (ht : Written k target ts) (hb : ∀ x ∈ xs, Encloses .square x.opener x.closer)
    (hx : ∀ x ∈ xs, Written 0 x.index x.indexTokens) :
    ∀ text ∈ ["=", ":="], Hides text (ts ++ xs.flatMap WrittenIndex.tokens) := by
  intro text htext
  refine Hides.append (ht.row.hides (.inl ?_)) (WrittenIndex.hides_flatMap hb hx ?_)
  · exact (by decide : ∀ s ∈ ["=", ":="], s ∈ [",", ":", "=", ":="]) text htext
  · exact (by decide : ∀ s ∈ ["=", ":="], square.openerText ≠ s) text htext

/-- **A written statement is read from its line.** -/
theorem Stmt.WrittenOnLine.read {s : Stmt} {ts : List Token} (h : s.WrittenOnLine ts) {p : Phrase}
    (hp : p.tokens = ts) : Line.read p = .ok (.complete s) := by
  cases h with
  | @expression e ts h =>
    obtain ⟨t, rest, rfl, ht⟩ := h.head
    have hnone {text : String} (hf : Foreign 0 text) : p.findOutside? text = none := by
      rw [Phrase.findOutside?, hp]
      exact (h.row.hides hf).free
    have hassign : p.assignment? = none := by
      rw [Phrase.assignment?, hnone (.inl (by decide)), hnone (.inl (by decide))]
      rfl
    rw [Line.read_other (by rwa [Phrase.textAt_zero hp]), hassign]
    simp only [h.reads p _ hp]
    rfl
  | @print keyword items ts hk hitems hj =>
    have hdrop : (p.drop 1).tokens = ts := Phrase.tokens_drop_one hp
    rw [Line.read_print (by rw [Phrase.textAt_zero hp, hk.text_eq]), readList_eq hdrop hitems hj]
    rfl
  | @jump kind keyword hk =>
    rw [Line.read_jump (by rw [Phrase.textAt_zero hp, hk.text_eq]), Phrase.readJump_eq_none hp]
    rfl
  | jumpWith hkind hk h =>
    rw [Line.read_jump (by rw [Phrase.textAt_zero hp, hk.text_eq]), Phrase.readJump_eq hp hkind h]
    rfl
  | @assign target value lookup operator ts vs xs htarget ht hb hx ho hv =>
    obtain ⟨t, rest, hts, hword⟩ := ht.head
    have htext : p.textAt 0 ∉ statementWords := by
      rwa [Phrase.textAt_zero (t := t) (by rw [hp, hts]; rfl)]
    have htarget_hides := hides_target ht hb hx
    have hsplit : p.tokens = (ts ++ xs.flatMap WrittenIndex.tokens) ++ operator :: vs := by
      rw [hp, List.append_assoc]
    have hassign := Phrase.assignment?_eq hsplit htarget_hides (hv.row.hides (.inl (by decide))) ho
    have hvalue := Phrase.tokens_drop_of_cons hsplit
    have hindices : p.readIndices (ts.length + (xs.flatMap WrittenIndex.tokens).length) []
        = .ok (ts.length, Expr.placedAll (xs.map (·.index)) ++ []) :=
      Phrase.readIndices_eq hp (ht.notIndexed htarget) hb hx
    have hbind := htarget.readTarget
      (ht.reads (p.take ts.length) lookup (Phrase.tokens_take_of_append hp))
    rw [Line.read_other htext, hassign]
    simp only [Phrase.readAssignmentAt]
    rw [if_neg (by rw [Phrase.isEmpty_eq_false (by rw [hvalue]; exact hv.ne_nil)]; decide)]
    rw [List.length_append, hindices]
    simp only [bind, Except.bind, hbind]
    rw [← List.length_append, hv.reads _ _ hvalue, List.append_nil]
    rfl

end ScriptReader

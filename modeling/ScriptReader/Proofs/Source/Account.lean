import ScriptReader.Proofs.Source.Balanced
import ScriptReader.Proofs.Source.Stretch

/-!
# Proofs/Source/Account — the scanner loses nothing and counts lines right

A call of the scanner reads stretches off its source: every move reads one (`Source.Ongoing.skip`,
`Source.Ongoing.form`), until one stops the call at the end of the statement or at a flaw, whose
line is that of what it is about (`Source.Ongoing.stop`).  So what any number of calls have read is
accounted for (`Source.Run.account`).
-/

namespace ScriptReader

open ScriptReader.Bracket ScriptReader.Stretch

/-! ## Depth -/

/-- How many brackets are open behind tokens. -/
def depthBehind (ts : List Token) : Nat := ts.foldl (fun depth t => depthAfter depth t.text) 0

theorem depthBehind_concat (ts : List Token) (t : Token) :
    depthBehind (ts ++ [t]) = depthAfter (depthBehind ts) t.text := by
  rw [depthBehind, List.foldl_append]
  rfl

/-- The scanner has as many brackets on its stack as are open. -/
theorem Brackets.length_of_pass? {open_ open' : Brackets} {t : Token}
    (h : open_.pass? t.line t.text.toList = some open') :
    open'.length = depthAfter open_.length t.text := by
  rcases t.bracket_cases with ht | ⟨b, ht⟩ | ⟨b, ht⟩
  · rw [pass?_plain ht] at h
    cases h
    rw [depthAfter_of_isPlain ht]
  · rw [pass?_opener ht] at h
    cases h
    rw [ht, depthAfter_openerText, List.length_cons]
  · rw [ht, depthAfter_closerText]
    rw [ht, pass?_closerText] at h
    cases open_ with
    | nil => cases h
    | cons o outer =>
      dsimp only at h
      split at h
      · cases h
        rw [List.length_cons, Nat.add_sub_cancel]
      · cases h

/-- Only a closing bracket does not pass: nothing is open, or the innermost open bracket is of
another kind. -/
theorem Brackets.exists_of_pass?_eq_none {open_ : Brackets} {line : Nat} {text : List Char}
    (h : open_.pass? line text = none) : ∃ b : Bracket, text = [b.closer]
      ∧ (open_ = [] ∨ ∃ o n outer, open_ = (o, n) :: outer ∧ o ≠ b) := by
  unfold pass? at h
  split at h
  · next c =>
    split at h
    · cases h
    · next b o n outer _ hb =>
      have hc := List.find?_some hb
      rw [beq_iff_eq] at hc
      split at h
      · cases h
      · next hne => exact ⟨b, by rw [hc], .inr ⟨o, n, outer, rfl, hne⟩⟩
    · next b _ hb =>
      have hc := List.find?_some hb
      rw [beq_iff_eq] at hc
      exact ⟨b, by rw [hc], .inl rfl⟩
    · cases h
  · cases h

/-! ## Separators within a statement -/

namespace Stretch

/-- The separators stand before the first token or within brackets. -/
def Inside (ss : List Stretch) : Prop :=
  ∀ as mark bs, ss = as ++ .separator mark :: bs →
    tokensOf as = [] ∨ 0 < depthBehind (tokensOf as)

/-- **Between tokens, the separators stand within brackets**: elsewhere they stand before the first
token, or end the statement. -/
def Separated (ss : List Stretch) : Prop :=
  ∀ as mark bs, ss = as ++ .separator mark :: bs →
    tokensOf as = [] ∨ 0 < depthBehind (tokensOf as) ∨ bs = []

variable {ss : List Stretch} {s : Stretch}

theorem exists_of_concat_eq {as bs : List Stretch} {s' : Stretch} (h : ss ++ [s] = as ++ s' :: bs) :
    (as = ss ∧ s' = s ∧ bs = []) ∨ ∃ bs', bs = bs' ++ [s] ∧ ss = as ++ s' :: bs' := by
  rcases List.eq_nil_or_concat bs with rfl | ⟨bs, d, rfl⟩
  · obtain ⟨rfl, hs⟩ := List.append_inj' h rfl
    exact .inl ⟨rfl, (List.singleton_inj.mp hs).symm, rfl⟩
  · rw [List.concat_eq_append, ← List.cons_append, ← List.append_assoc] at h
    obtain ⟨rfl, hs⟩ := List.append_inj' h rfl
    obtain rfl := List.singleton_inj.mp hs
    exact .inr ⟨bs, List.concat_eq_append, rfl⟩

theorem Inside.concat (h : Inside ss)
    (hs : ∀ mark, s = .separator mark → tokensOf ss = [] ∨ 0 < depthBehind (tokensOf ss)) :
    Inside (ss ++ [s]) := by
  intro as mark bs heq
  rcases exists_of_concat_eq heq with ⟨rfl, rfl, rfl⟩ | ⟨bs', rfl, rfl⟩
  · exact hs mark rfl
  · exact h as mark bs' rfl

theorem Inside.separated (h : Inside ss) : Separated ss := by
  intro as mark bs heq
  rcases h as mark bs heq with h | h
  · exact .inl h
  · exact .inr (.inl h)

theorem Inside.separated_concat (h : Inside ss) : Separated (ss ++ [s]) := by
  intro as mark bs heq
  rcases exists_of_concat_eq heq with ⟨-, -, rfl⟩ | ⟨bs', -, rfl⟩
  · exact .inr (.inr rfl)
  · rcases h as mark bs' rfl with h | h
    · exact .inl h
    · exact .inr (.inl h)

end Stretch

/-! ## Flaws -/

/-- **What a flaw is about**, and that its line is that of its place.  The stretches `ss` have been
read behind the text `before`, and `rest` is left. -/
inductive Flaw.Concerns (before : List Char) (ss : List Stretch) (rest : List Char) : Flaw → Prop
  /-- The opening quote of a string that is not closed. -/
  | openingQuote {quote : Char} {cs : List Char} {unfinished : Option Token}
      (hrest : rest = quote :: cs) (hquote : quote = '"' ∨ quote = '\'')
      (hopen : (stringTail quote cs).closed = false) :
      Concerns before ss rest ⟨.unterminatedString, lineBehind (before ++ textOf ss), unfinished⟩
  /-- The innermost bracket that is open at the end of the text. -/
  | openBracket {b : Bracket} {as bs : List Stretch} {o : Token} {unfinished : Option Token}
      (hrest : rest = []) (hss : ss = as ++ .token o :: bs) (ho : o.text = b.openerText)
      (hbs : Nested (tokensOf bs)) :
      Concerns before ss rest
        ⟨.unclosedBracket b.opener, lineBehind (before ++ textOf as), unfinished⟩
  /-- A closing bracket where no bracket is open, or the innermost open one is of another kind. -/
  | closingBracket {b : Bracket} {cs : List Char} {unfinished : Option Token}
      (hrest : rest = b.closer :: cs)
      (hopen : Nested (tokensOf ss) ∨ ∃ as o bs b', ss = as ++ .token o :: bs
        ∧ o.text = openerText b' ∧ b' ≠ b ∧ Nested (tokensOf bs)) :
      Concerns before ss rest
        ⟨.unbalancedBracket b.closer, lineBehind (before ++ textOf ss), unfinished⟩
  /-- A character that nothing begins with. -/
  | character {c : Char} {cs : List Char} {unfinished : Option Token} (hrest : rest = c :: cs)
      (hnone : piece? rest = none) :
      Concerns before ss rest ⟨.unexpectedCharacter c, lineBehind (before ++ textOf ss), unfinished⟩
  /-- A backslash that no line break follows. -/
  | backslash {cs : List Char} {unfinished : Option Token} (hrest : rest = '\\' :: cs)
      (hbreak : ∀ ds, cs ≠ '\n' :: ds ∧ cs ≠ '\r' :: '\n' :: ds) :
      Concerns before ss rest ⟨.brokenContinuation, lineBehind (before ++ textOf ss), unfinished⟩

/-- The innermost open bracket, as a stretch. -/
theorem Leaves.exists_stretch {ss : List Stretch} {b : Bracket} {line : Nat} {outer : Brackets}
    (h : Leaves (tokensOf ss) ((b, line) :: outer)) :
    ∃ as o bs, ss = as ++ .token o :: bs ∧ o.text = b.openerText ∧ o.line = line
      ∧ Nested (tokensOf bs) := by
  obtain ⟨ts, o, us, hts, ho, hline, hus, -⟩ := h
  obtain ⟨as, bs, hss, -, rfl⟩ := exists_of_tokensOf_eq hts
  exact ⟨as, o, bs, hss, ho, hline, hus⟩

namespace Source

/-! ## Calls -/

/-- A call that began with the source `start` has read stretches, and goes on. -/
structure Ongoing (start : Source) (ss : List Stretch) (open_ : Brackets) (begun : Bool)
    (src : Source) : Prop where
  reads : Reads start ss src
  leaves : Leaves (tokensOf ss) open_
  depth : open_.length = depthBehind (tokensOf ss)
  begun : begun = false → tokensOf ss = []
  inside : Inside ss

/-- **What a call comes to**, which has read stretches behind some text: the end of a statement, or
a flaw. -/
def Ends (before : List Char) (start : Source) (ss : List Stretch) (next : Source) :
    Option Flaw → Prop
  | none => Reads start ss next ∧ Stretch.Separated ss
  | some flaw => ∃ mid cs, Reads start ss mid ∧ flaw.Concerns before ss mid.rest
      ∧ mid.rest = cs ++ next.rest ∧ next.line = mid.line + cs.count '\n'

namespace Ongoing

variable {start src next : Source} {ss : List Stretch} {open_ open' : Brackets} {begun : Bool}

theorem concat {s : Stretch} {rest : List Char} (h : Ongoing start ss open_ begun src)
    (hrest : src.rest = s.text ++ rest) (hs : s.IsTrivia rest)
    (hinside : Inside (ss ++ [s])) :
    Ongoing start (ss ++ [s]) open_ begun (src.after s.text rest) := by
  have htokens : tokensOf (ss ++ [s]) = tokensOf ss := by
    rw [tokensOf_append]
    cases hs <;> exact List.append_nil _
  exact
    { reads := h.reads.append (.trivia hrest hs (.nil _))
      leaves := htokens ▸ h.leaves
      depth := htokens ▸ h.depth
      begun := htokens ▸ h.begun
      inside := hinside }

/-- **What is passed over is read off as trivia.** -/
theorem skip (h : Ongoing start ss open_ begun src) (hmove : src.move open_ begun = .skip next) :
    ∃ s, tokensOf [s] = [] ∧ Ongoing start (ss ++ [s]) open_ begun next := by
  cases moves_of_eq hmove with
  | @blank text rest hpiece =>
    exact ⟨.blank text, rfl, h.concat (text_append_of_piece? hpiece).symm
      (isTrivia_of_blank hpiece) (h.inside.concat nofun)⟩
  | @separator mark rest hpiece hopen =>
    refine ⟨.separator mark, rfl, h.concat (text_append_of_piece? hpiece).symm
      (isTrivia_of_separator hpiece) (h.inside.concat fun _ _ => ?_)⟩
    cases hbegun : begun with
    | false => exact .inl (h.begun hbegun)
    | true => exact .inr (h.depth ▸ List.length_pos_iff.mpr (hopen hbegun))

/-- **What is made a token of is read off as that token**, and the brackets open behind it are
known. -/
theorem form {kind : Kind} {text : List Char} (h : Ongoing start ss open_ begun src)
    (hmove : src.move open_ begun = .form kind text open' next) :
    Ongoing start (ss ++ [.token ⟨kind, String.ofList text, src.line⟩]) open' true next := by
  cases moves_of_eq hmove with
  | @lexeme _ _ rest _ hpiece hpass =>
    have htokens : tokensOf (ss ++ [.token ⟨kind, String.ofList text, src.line⟩])
        = tokensOf ss ++ [⟨kind, String.ofList text, src.line⟩] := tokensOf_append _ _
    have hlist : (String.ofList text).toList = text := String.toList_ofList
    have hne : String.ofList text ≠ "" := fun hempty => by
      have hnil : text = [] := by rw [← hlist, hempty]; rfl
      exact text_ne_nil_of_piece? hpiece hnil
    have hrest : src.rest = (String.ofList text).toList ++ rest := by
      rw [hlist]
      exact (text_append_of_piece? hpiece).symm
    rw [← hlist] at hpass
    refine ⟨h.reads.append (.token hrest hne rfl ?_), ?_, ?_, nofun, h.inside.concat nofun⟩
    · rw [hlist]
      exact .nil _
    · rw [htokens]
      exact h.leaves.pass hpass
    · rw [htokens, depthBehind_concat, ← h.depth]
      exact Brackets.length_of_pass? hpass

/-- **What stops a call** ends the statement, or is a flaw that says the line it is on. -/
theorem stop {before : List Char} {flaw : Option Flaw} (h : Ongoing start ss open_ begun src)
    (hstart : start.line = lineBehind before) (hmove : src.move open_ begun = .stop next flaw) :
    ∃ ss', tokensOf ss' = tokensOf ss ∧ Ends before start ss' next flaw := by
  have hline : src.line = lineBehind (before ++ textOf ss) := by
    rw [h.reads.line_eq, hstart, lineBehind_append]
  cases moves_of_eq hmove with
  | @finished mark rest hpiece hbegun hopen =>
    refine ⟨ss ++ [.separator mark], (tokensOf_append _ _).trans (List.append_nil _), ?_,
      h.inside.separated_concat⟩
    exact h.reads.append
      (.trivia (text_append_of_piece? hpiece).symm (isTrivia_of_separator hpiece) (.nil _))
  | ended hrest hopen => exact ⟨ss, rfl, h.reads, h.inside.separated⟩
  | @unclosed b line outer hrest hopen =>
    have hleaves := h.leaves
    rw [hopen] at hleaves
    obtain ⟨as, o, bs, rfl, ho, rfl, hbs⟩ := hleaves.exists_stretch
    refine ⟨_, rfl, src, [], h.reads, ?_, rfl, rfl⟩
    rw [h.reads.line_of_token hstart]
    exact .openBracket hrest rfl ho hbs
  | unexpected hrest hnone =>
    refine ⟨ss, rfl, src, [], h.reads, ?_, rfl, rfl⟩
    rw [hline]
    exact .character hrest hnone
  | @unbalanced kind text rest hpiece hpass =>
    obtain ⟨b, rfl, hopen⟩ := Brackets.exists_of_pass?_eq_none hpass
    have hleaves := h.leaves
    refine ⟨ss, rfl, src, [], h.reads, ?_, rfl, rfl⟩
    rw [hline]
    refine .closingBracket (text_append_of_piece? hpiece).symm ?_
    rcases hopen with hnil | ⟨b', line, outer, hcons, hne⟩
    · rw [hnil] at hleaves
      exact .inl hleaves
    · rw [hcons] at hleaves
      obtain ⟨as, o, bs, hss, ho, -, hbs⟩ := hleaves.exists_stretch
      exact .inr ⟨as, o, bs, b', hss, ho, hne, hbs⟩
  | @brokenContinuation text rest hpiece =>
    obtain ⟨cs, hrest, hbreak⟩ := exists_of_brokenContinuation hpiece
    refine ⟨ss, rfl, src, text, h.reads, ?_, (text_append_of_piece? hpiece).symm, rfl⟩
    rw [hline]
    exact .backslash hrest hbreak
  | @brokenString text rest hpiece =>
    obtain ⟨quote, cs, hrest, hquote, hopen⟩ := exists_of_brokenString hpiece
    refine ⟨ss, rfl, src, text, h.reads, ?_, (text_append_of_piece? hpiece).symm, rfl⟩
    rw [hline]
    exact .openingQuote hrest hquote hopen

/-- **So a call reads stretches to its end**, and its tokens are among them. -/
theorem exists_ends {before : List Char} (hstart : start.line = lineBehind before)
    (h : Ongoing start ss open_ begun src) :
    ∃ ss', tokensOf ss' = tokensOf ss ++ (src.scanFrom open_ begun).tokens
      ∧ Ends before start ss' (src.scanFrom open_ begun).source
          (src.scanFrom open_ begun).flaw := by
  induction open_, begun, src using induction_on_moves generalizing ss with
  | skip open_ begun src next hmove ih =>
    obtain ⟨s, hs, hnext⟩ := h.skip hmove
    obtain ⟨ss', htokens, hends⟩ := ih hnext
    rw [tokensOf_append, hs, List.append_nil] at htokens
    rw [scanFrom_eq, hmove]
    exact ⟨ss', htokens, hends⟩
  | form open_ begun src kind text open' next hmove ih =>
    obtain ⟨ss', htokens, hends⟩ := ih (h.form hmove)
    rw [tokensOf_append, List.append_assoc] at htokens
    rw [scanFrom_eq, hmove]
    exact ⟨ss', htokens, hends⟩
  | stop open_ begun src next flaw hmove =>
    obtain ⟨ss', htokens, hends⟩ := h.stop hstart hmove
    rw [scanFrom_eq, hmove]
    exact ⟨ss', htokens.trans (List.append_nil _).symm, hends⟩

end Ongoing

/-- **What a call has read**, which went on behind some text. -/
theorem exists_ends_scan {before : List Char} {src : Source}
    (hsrc : src.line = lineBehind before) :
    ∃ ss, tokensOf ss = src.scan.tokens ∧ Ends before src ss src.scan.source src.scan.flaw := by
  have hinside : Inside [] := fun as mark bs h => by simp at h
  have hleaves : Leaves (tokensOf []) [] := Nested.nil
  exact Ongoing.exists_ends hsrc ⟨.nil src, hleaves, rfl, fun _ => rfl, hinside⟩

/-! ## Runs of calls -/

/-- **Calls that have all succeeded**: their statements, and what they have left of a source. -/
inductive Run : Source → List (List Token) → Source → Prop
  | nil (src : Source) : Run src [] src
  | cons {src next : Source} {statements : List (List Token)} (hflaw : src.scan.flaw = none)
      (h : Run src.scan.source statements next) : Run src (src.scan.tokens :: statements) next

theorem Run.exists_reads {src next : Source} {statements : List (List Token)} {before : List Char}
    (hsrc : src.line = lineBehind before) (h : Run src statements next) :
    ∃ sss : List (List Stretch), sss.map tokensOf = statements ∧ Reads src sss.flatten next
      ∧ ∀ ss ∈ sss, Stretch.Separated ss := by
  induction h generalizing before with
  | nil src => exact ⟨[], rfl, .nil src, nofun⟩
  | @cons src next statements hflaw _ ih =>
    obtain ⟨ss, htokens, hends⟩ := exists_ends_scan hsrc
    rw [hflaw] at hends
    obtain ⟨hreads, hss⟩ := hends
    have hnext : src.scan.source.line = lineBehind (before ++ textOf ss) := by
      rw [hreads.line_eq, hsrc, lineBehind_append]
    obtain ⟨sss, rfl, hreads', hsss⟩ := ih hnext
    exact ⟨ss :: sss, by rw [List.map_cons, htokens], hreads.append hreads',
      List.forall_mem_cons.mpr ⟨hss, hsss⟩⟩

/-- **An account of what has been read of a text**: statement by statement the stretches that it
consists of, with what is left of it. -/
structure Account (text : List Char) (statements : List (List Token)) (src : Source)
    (sss : List (List Stretch)) : Prop where
  /-- The stretches and what is left make up the text. -/
  text_eq : textOf sss.flatten ++ src.rest = text
  /-- Their tokens are those of the statements. -/
  tokens_eq : sss.map tokensOf = statements
  /-- What is no token is trivia. -/
  isTrivia : ∀ as s bs, sss.flatten = as ++ s :: bs → s.token? = none →
    s.IsTrivia (textOf bs ++ src.rest)
  /-- In a statement, separators between tokens stand within brackets. -/
  separated : ∀ ss ∈ sss, Stretch.Separated ss
  /-- Every token has a place. -/
  places_eq : (places 0 sss.flatten).map Prod.snd = statements.flatten
  /-- The tokens stand in order and do not overlap. -/
  pairwise : (places 0 sss.flatten).Pairwise fun p q =>
    p.1 < q.1 ∧ p.1 + p.2.text.length ≤ q.1
  /-- Each is the text at its place, and not empty; its line is that of its first character. -/
  place : ∀ p ∈ places 0 sss.flatten, p.2.text ≠ "" ∧ p.2.text.toList <+: text.drop p.1
    ∧ p.2.line = lineBehind (text.take p.1)
  /-- The line is that on which the text goes on. -/
  line_eq : src.line = lineBehind (textOf sss.flatten)

/-- **Whatever calls have read is accounted for.**  If the next call fails, its flaw has the line of
what it is about, and the scanner that of what it has got to. -/
theorem Run.account {s : String} {statements : List (List Token)} {src : Source}
    (h : Run (.ofString s) statements src) :
    ∃ sss, Account s.toList statements src sss ∧ ∀ flaw, src.scan.flaw = some flaw →
      ∃ ss rest, textOf ss ++ rest = src.rest ∧ tokensOf ss = src.scan.tokens
        ∧ flaw.Concerns (textOf sss.flatten) ss rest
        ∧ ∃ read, read ++ src.scan.source.rest = s.toList
            ∧ src.scan.source.line = lineBehind read := by
  have hfirst : (ofString s).line = lineBehind [] := rfl
  obtain ⟨sss, htokens, hreads, hseparated⟩ := h.exists_reads hfirst
  have htext : s.toList = textOf sss.flatten ++ src.rest := hreads.rest_eq
  have hline : src.line = lineBehind (textOf sss.flatten) := hreads.line_eq
  have hplace : ∀ p ∈ places 0 sss.flatten, p.2.text ≠ "" ∧ p.2.text.toList <+: s.toList.drop p.1
      ∧ p.2.line = lineBehind (s.toList.take p.1) := by
    intro p hp
    obtain ⟨as, bs, hsss, hpos⟩ := exists_of_mem_places hp
    rw [hsss] at hreads htext
    rw [Nat.zero_add] at hpos
    obtain ⟨mid, -, hmid⟩ := hreads.split
    rw [textOf_append, textOf_cons, List.append_assoc, List.append_assoc] at htext
    rw [hpos, htext, List.drop_left, List.take_left]
    exact ⟨hmid.of_token.1, List.prefix_append _ _, hreads.line_of_token hfirst⟩
  have hplaces : (places 0 sss.flatten).map Prod.snd = statements.flatten := by
    rw [map_snd_places, tokensOf, List.filterMap_flatten, ← htokens]
    rfl
  refine ⟨sss, ⟨htext.symm, htokens, fun as s' bs hsss hs' => ?_, hseparated, hplaces, ?_, hplace,
    hline⟩, fun flaw hflaw => ?_⟩
  · obtain ⟨mid, -, hmid⟩ := (hsss ▸ hreads).split
    exact hmid.of_trivia hs'
  · refine (pairwise_places 0 sss.flatten).imp_of_mem fun {p q} hp _ hle => ⟨?_, hle⟩
    have hpos : p.2.text.length ≠ 0 := fun h0 => (hplace p hp).1 (String.length_eq_zero_iff.mp h0)
    omega
  · obtain ⟨ss, hss, hends⟩ := exists_ends_scan hline
    rw [hflaw] at hends
    obtain ⟨mid, cs, hmid, hconcerns, hrest, hnext⟩ := hends
    refine ⟨ss, mid.rest, hmid.rest_eq.symm, hss, hconcerns, textOf sss.flatten ++ textOf ss ++ cs,
      ?_, ?_⟩
    · rw [htext, hmid.rest_eq, hrest]
      simp only [List.append_assoc]
    · rw [hnext, hmid.line_eq, hline, lineBehind_append, lineBehind_append]

/-- A call that goes over a line break within brackets and over a comment, before a quote that is
left open on the third line. -/
theorem Run.account_unterminated :
    ∃ src sss ss rest, Account "a(\n1) # b\n'".toList
        [[⟨.identifier, "a", 1⟩, ⟨.operator, "(", 1⟩, ⟨.number, "1", 2⟩, ⟨.operator, ")", 2⟩]]
        src sss
      ∧ textOf ss ++ rest = ['\'']
      ∧ Flaw.Concerns (textOf sss.flatten) ss rest
          ⟨.unterminatedString, 3, some ⟨.unknown, "'", 3⟩⟩ := by
  have hfirst : (ofString "a(\n1) # b\n'").scan = ⟨[⟨.identifier, "a", 1⟩, ⟨.operator, "(", 1⟩,
      ⟨.number, "1", 2⟩, ⟨.operator, ")", 2⟩], ⟨['\''], 3⟩, none⟩ := by decide +kernel
  have hnext : scan ⟨['\''], 3⟩ = ⟨[], ⟨[], 3⟩,
      some ⟨.unterminatedString, 3, some ⟨.unknown, "'", 3⟩⟩⟩ := by decide +kernel
  have hrun := Run.cons (congrArg Scan.flaw hfirst) (.nil _)
  rw [hfirst] at hrun
  obtain ⟨sss, haccount, hflaws⟩ := Run.account hrun
  obtain ⟨ss, rest, hrest, -, hconcerns, -⟩ := hflaws _ (congrArg Scan.flaw hnext)
  exact ⟨_, sss, ss, rest, haccount, hrest, hconcerns⟩

end Source

end ScriptReader

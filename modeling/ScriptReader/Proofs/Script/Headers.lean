import ScriptReader.Proofs.Script.Lines

/-!
# Proofs/Script/Headers — a header is read from what is before its end

A header shows no colon outside brackets (`Opening.Written.hides`), so that its end is found
(`Phrase.headerEnd_of_tail`), and the statement beside it (`Phrase.exists_inlineBody?`).
What is read of a header, its tokens say (`Phrase.readForHeader_of_tokens`,
`Phrase.readFunctionHeader_of_tokens`); `Opening.Written.read` says it of a written header.
-/

namespace ScriptReader

open ScriptReader.Bracket

namespace Phrase

variable {p : Phrase}

/-! ## Where headers end -/

theorem headerEnd_le (p : Phrase) : p.headerEnd ≤ p.size := by
  rw [headerEnd]
  cases hcolon : p.findOutside? ":" with
  | none => exact Nat.le_refl _
  | some k => exact Nat.le_of_lt (findOutside?_lt hcolon)

section Header

variable {header tail : List Token} (hp : p.tokens = header ++ tail) (hh : Hides ":" header)
include hp

/-- The tokens between a keyword and the header's end. -/
theorem tokens_slice_header {keyword : Token} {ts : List Token} (hheader : header = keyword :: ts) :
    (p.slice 1 header.length).tokens = ts := by
  rw [tokens_slice, hp, List.take_left, hheader, List.drop_one, List.tail_cons]

include hh

theorem findOutside?_header (htail : tail = []) : p.findOutside? ":" = none := by
  rw [findOutside?, hp, htail, List.append_nil]
  exact hh.free

theorem findOutside?_colon {colon : Token} {rest : List Token} (htail : tail = colon :: rest)
    (hc : colon.text = ":") : p.findOutside? ":" = some header.length := by
  rw [findOutside?, hp, htail]
  exact hh.findOutside?_append_cons hc

/-- **A header ends where its tokens do**, with a colon behind it or not. -/
theorem headerEnd_of_tail (htail : ∀ t ∈ tail.head?, t.text = ":") :
    p.headerEnd = header.length := by
  cases tail with
  | nil =>
    rw [headerEnd, findOutside?_header hp hh rfl, size, hp, List.append_nil]
    rfl
  | cons colon rest =>
    rw [headerEnd, findOutside?_colon hp hh rfl (htail colon rfl)]
    rfl

theorem inlineBody?_eq_none (htail : ∀ t ∈ tail.head?, t.text = ":") (hlen : tail.length ≤ 1) :
    p.inlineBody? = none := by
  cases tail with
  | nil => rw [inlineBody?, findOutside?_header hp hh rfl]
  | cons colon rest =>
    obtain rfl := List.eq_nil_of_length_eq_zero (Nat.le_zero.mp (Nat.le_of_succ_le_succ hlen))
    rw [inlineBody?, findOutside?_colon hp hh rfl (htail colon rfl)]
    refine if_neg ?_
    rw [size, hp, List.length_append, List.length_singleton]
    exact Nat.lt_irrefl _

theorem exists_inlineBody? {colon : Token} {rest : List Token} (htail : tail = colon :: rest)
    (hc : colon.text = ":") (hne : rest ≠ []) :
    ∃ q, p.inlineBody? = some q ∧ q.tokens = rest := by
  refine ⟨p.drop (header.length + 1), ?_, tokens_drop_of_cons (hp.trans (by rw [htail]))⟩
  rw [inlineBody?, findOutside?_colon hp hh htail hc]
  refine if_pos ?_
  have := List.length_pos_iff.mpr hne
  rw [size, hp, htail, List.length_append, List.length_cons]
  omega

end Header

/-! ## Headers by their tokens -/

/-- **What is bound and what is gone through are all that is read** of the header of a loop. -/
theorem readForHeader_of_tokens {keyword within : Token} {binding gone : List Token}
    (hp : (p.take p.headerEnd).tokens = keyword :: (binding ++ within :: gone))
    (hkeyword : keyword.text = "for") (hwithin : within.text = "in")
    (hbinding : Hides "in" binding) (hgone : gone ≠ []) :
    p.readForHeader = (do
      let iterator ← Expr.readTarget ((p.take p.headerEnd).slice 1 (binding.length + 1)) .binding
      return .forLoop iterator
        (← Expr.read ((p.take p.headerEnd).drop (binding.length + 2)) .value)) := by
  have hplain : keyword.IsPlain :=
    Token.isPlain_of_mem_statementWords (by rw [hkeyword]; decide)
  have hhides : Hides "in" (keyword :: binding) := hbinding.cons hplain (by rw [hkeyword]; decide)
  have hfind : (p.take p.headerEnd).findOutside? "in" = some (binding.length + 1) := by
    rw [findOutside?, hp]
    exact hhides.findOutside?_append_cons hwithin
  have hsplit : (p.take p.headerEnd).tokens = (keyword :: binding) ++ within :: gone := hp
  have hne : ((p.take p.headerEnd).drop (binding.length + 2)).isEmpty = false :=
    isEmpty_eq_false ((tokens_drop_of_cons hsplit).symm ▸ hgone)
  rw [readForHeader]
  simp only [hfind, hne]
  rfl

/-- **The parameters of a function are all that is read behind its name.** -/
theorem readFunctionHeader_of_tokens {keyword word o c : Token} {inner rest : List Token}
    (hp : p.tokens = keyword :: word :: o :: (inner ++ c :: rest)) (hkeyword : keyword.text = "def")
    (hword : word.IsIdentifier) (ho : o.text = round.openerText) (hc : c.text = round.closerText)
    (hinner : Nested inner) :
    p.readFunctionHeader = (.function (.name word.text .definition) ·) <$>
      ((p.slice 3 (inner.length + 3)).segments ",").mapM
        (p.slice 3 (inner.length + 3)).readParameter := by
  have hplain : keyword.IsPlain :=
    Token.isPlain_of_mem_statementWords (by rw [hkeyword]; decide)
  have hhides : Hides round.openerText [keyword, word] :=
    (hword.hides rfl).cons hplain (hplain.ne_openerText .round)
  have hfind : p.findOutside? round.openerText = some 2 := by
    rw [findOutside?, hp]
    exact hhides.findOutside?_append_cons ho
  have hname : (p.slice 1 2).tokens = [word] := by
    rw [tokens_slice, hp]
    rfl
  have hwritten : Written 0 (.name word.text .none) [word] := .name hword
  have hread := (Expr.IsBindable.name word.text .none).readTarget
    (hwritten.reads (p.slice 1 2) .definition hname)
  have hcloser : p.closerOf 2 = .ok (inner.length + 3) := by
    rw [closerOf_eq 2 .round (by rw [hp]; rfl) ho hc hinner, Nat.add_comm]
  rw [readFunctionHeader]
  simp only [hfind, bind, Except.bind, hread, hcloser]
  cases ((p.slice 3 (inner.length + 3)).segments ",").mapM
    (p.slice 3 (inner.length + 3)).readParameter <;> rfl

end Phrase

/-! ## Headers as they are written -/

/-- A keyword is no colon. -/
theorem Hides.keyword {keyword : Token} {text : String} {ts : List Token} (h : Hides ":" ts)
    (hk : keyword.Spells text) (htext : text ∈ statementWords) : Hides ":" (keyword :: ts) := by
  refine h.cons (isPlain_of_statementWord hk htext) ?_
  rw [hk.text_eq]
  exact (by decide : ∀ s ∈ statementWords, s ≠ ":") text htext

/-- A condition behind its keyword shows no colon. -/
theorem Written.hides_condition {keyword : Token} {text : String} {condition : Expr}
    {ts : List Token} (h : Written 0 condition ts) (hk : keyword.Spells text)
    (htext : text ∈ statementWords) : Hides ":" (keyword :: ts) :=
  (h.row.hides (.inl (by decide))).keyword hk htext

theorem Phrase.readCondition_eq {p : Phrase} {keyword : Token} {text : String} {condition : Expr}
    {ts tail : List Token} (hp : p.tokens = keyword :: ts ++ tail) (hk : keyword.Spells text)
    (htext : text ∈ statementWords) (h : Written 0 condition ts)
    (htail : ∀ t ∈ tail.head?, t.text = ":") :
    p.readCondition = .ok (condition.placed .value) := by
  have hslice : (p.slice 1 p.headerEnd).tokens = ts := by
    rw [headerEnd_of_tail hp (h.hides_condition hk htext) htail]
    exact tokens_slice_header hp rfl
  rw [readCondition, readHeader, if_neg]
  · rw [h.reads _ _ hslice]
    rfl
  · rw [isEmpty_eq_false (by rw [hslice]; exact h.ne_nil)]
    exact Bool.false_ne_true

theorem Phrase.readParameter_eq {p all : Phrase} {x : WrittenParameter} (hx : x.IsWritten)
    (hp : p.tokens = x.tokens) : all.readParameter p = .ok x.parameter := by
  obtain ⟨name, default?⟩ := x
  have hkind : name.kind = .identifier := hx.name.kind_eq
  cases default? with
  | none =>
    have htokens : p.tokens = [name] := hp
    rw [readParameter]
    simp only [htokens, hkind]
    rfl
  | some default =>
    obtain ⟨equals, e, ts⟩ := default
    obtain ⟨hequals, he⟩ := hx.default equals e ts rfl
    obtain ⟨t, ts', rfl⟩ := List.exists_cons_of_ne_nil he.ne_nil
    have htokens : p.tokens = name :: equals :: t :: ts' := hp
    have htext : p.hasText 1 "=" = true := by
      rw [hasText, htokens, List.getElem?_cons_succ, List.getElem?_cons_zero, Option.map_some,
        hequals.text_eq]
      rfl
    have hread := he.reads (p.drop 2) .value (tokens_drop_two htokens)
    rw [readParameter]
    simp only [htokens, hkind, htext, and_self, if_true, hread]
    rfl

theorem WrittenParameter.isSegment {x : WrittenParameter} (hx : x.IsWritten) :
    IsSegment "," x.tokens := by
  obtain ⟨name, default?⟩ := x
  cases default? with
  | none => exact (hx.name.hides rfl).isSegment (List.cons_ne_nil _ _)
  | some default =>
    -- a default is written like the value of a named argument
    obtain ⟨hequals, he⟩ := hx.default _ _ _ rfl
    exact isSegment_named hx.name hequals he.row

theorem Joined.nested_parameters {xs : List WrittenParameter} {ts : List Token}
    (hj : Joined "," (xs.map (·.tokens)) ts) (hxs : ∀ x ∈ xs, x.IsWritten) : Nested ts :=
  hj.nested_of_isSegment (by decide)
    (List.forall_mem_map.mpr fun x hx => WrittenParameter.isSegment (hxs x hx))

/-- **A header shows no colon**, which would end it. -/
theorem Opening.Written.hides {o : Opening} {header : List Token} (h : o.Written header) :
    Hides ":" header := by
  cases h with
  | whileLoop hk h => exact h.hides_condition hk (by decide)
  | forLoop hk _ hi hin h =>
    have hiterable : Hides ":" _ := (h.row.hides (.inl (by decide))).cons (hin.isPlain rfl rfl)
      (by rw [hin.text_eq]; decide)
    exact ((hi.row.hides (.inl (by decide))).append hiterable).keyword hk (by decide)
  | function hk hname hb hparameters hj =>
    have hbrackets : Hides ":" _ := .bracketed .round hb.opener.text_eq hb.closer.text_eq
      (hj.nested_parameters hparameters) (by decide)
    exact ((hname.hides rfl).append hbrackets).keyword hk (by decide)

theorem Phrase.readForHeader_eq {p : Phrase} {keyword within : Token} {iterator iterable : Expr}
    {is ts tail : List Token} (hp : p.tokens = keyword :: (is ++ within :: ts) ++ tail)
    (hk : keyword.Spells "for") (htarget : iterator.IsBindable)
    (hi : Written Operator.member.level iterator is) (hin : within.Spells "in")
    (h : Written 0 iterable ts) (htail : ∀ t ∈ tail.head?, t.text = ":") :
    p.readForHeader = .ok (.forLoop (iterator.placed .binding) (iterable.placed .value)) := by
  have hwritten : Opening.Written _ (keyword :: (is ++ within :: ts)) :=
    .forLoop hk htarget hi hin h
  have hheader : (p.take p.headerEnd).tokens = (keyword :: is) ++ within :: ts := by
    rw [headerEnd_of_tail hp hwritten.hides htail]
    exact tokens_take_of_append hp
  have hbind := htarget.readTarget (hi.reads _ .binding (tokens_slice_header hheader rfl))
  have hiterable := h.reads _ .value (tokens_drop_of_cons hheader)
  rw [List.length_cons] at hbind hiterable
  have hhides : Hides "in" is := hi.row.hides (.inr ⟨rfl, by decide⟩)
  rw [readForHeader_of_tokens hheader hk.text_eq hin.text_eq hhides h.ne_nil, hbind]
  simp only [bind, Except.bind, hiterable]
  rfl

theorem Phrase.readFunctionHeader_eq {p : Phrase} {keyword name o c : Token}
    {parameters : List WrittenParameter} {ts tail : List Token}
    (hp : p.tokens = keyword :: name :: o :: (ts ++ [c]) ++ tail) (hk : keyword.Spells "def")
    (hname : name.IsIdentifier) (hb : Encloses .round o c)
    (hparameters : ∀ x ∈ parameters, x.IsWritten)
    (hj : Joined "," (parameters.map (·.tokens)) ts) :
    p.readFunctionHeader
      = .ok (.function (.name name.text .definition) (parameters.map (·.parameter))) := by
  have hsplit : p.tokens = keyword :: name :: o :: (ts ++ c :: tail) := by
    rw [hp]
    simp
  have hbetween : (p.slice 3 (ts.length + 3)).tokens = ts := by
    rw [tokens_slice, hsplit]
    simp
  have hsegments := tokens_segments hbetween hj
    (List.forall_mem_map.mpr fun x hx => WrittenParameter.isSegment (hparameters x hx))
  have hread : ((p.slice 3 (ts.length + 3)).segments ",").mapM
      (p.slice 3 (ts.length + 3)).readParameter = .ok (parameters.map (·.parameter)) :=
    mapM_eq_of_tokens hsegments fun x hx _ hq => readParameter_eq (hparameters x hx) hq
  rw [readFunctionHeader_of_tokens hsplit hk.text_eq hname hb.opener.text_eq hb.closer.text_eq
    (hj.nested_parameters hparameters), hread]
  rfl

/-- **A written header is read from its line**, whose rest is left over. -/
theorem Opening.Written.read {o : Opening} {header tail : List Token} (h : o.Written header)
    {p : Phrase} (hp : p.tokens = header ++ tail) (htail : ∀ t ∈ tail.head?, t.text = ":") :
    Line.read p = .ok (.opening o p.inlineBody?) := by
  cases h with
  | whileLoop hk h =>
    rw [Line.read_while (by rw [Phrase.textAt_zero hp, hk.text_eq]),
      Phrase.readCondition_eq hp hk (by decide) h htail]
    rfl
  | forLoop hk htarget hi hin h =>
    rw [Line.read_for (by rw [Phrase.textAt_zero hp, hk.text_eq]),
      Phrase.readForHeader_eq hp hk htarget hi hin h htail]
    rfl
  | function hk hname hb hparameters hj =>
    rw [Line.read_def (by rw [Phrase.textAt_zero hp, hk.text_eq]),
      Phrase.readFunctionHeader_eq hp hk hname hb hparameters hj]
    rfl

end ScriptReader

import ScriptReader.Proofs.Expr.Targets
import ScriptReader.Proofs.Phrase.Formed
import ScriptReader.Proofs.Script.Headers

/-!
# Proofs/Script/HeaderParts — what a header consists of, and what of it is read

The header of a loop over something is read from its keyword to its end: what is bound stands up to
the first `in` outside brackets, and what is gone through behind it.  The header of a function is
read up to the parentheses of its parameters, and whatever stands between these and the header's end
is read by nobody (`Phrase.Header`).  Just the lines with such headers are read as openings
(`Line.read_opening_iff`).
-/

namespace ScriptReader

open ScriptReader.Bracket

/-- What hides a text behind a token that is no bracket hides it. -/
theorem Hides.tail {text : String} {t : Token} {ts : List Token} (h : Hides text (t :: ts))
    (ht : t.IsPlain) : Hides text ts := by
  refine ⟨h.nested.tail ht, ?_⟩
  have hfree := h.free
  rw [findOutside?] at hfree
  split at hfree
  · cases hfree
  · rwa [depthAfter_of_isPlain ht, Option.map_eq_none_iff] at hfree

/-- It does not begin with the text. -/
theorem Hides.head_ne {text : String} {ts : List Token} (h : Hides text ts) :
    ∀ t ∈ ts.head?, t.text ≠ text := by
  intro t ht
  obtain ⟨rest, rfl⟩ := List.head?_eq_some_iff.mp ht
  rintro rfl
  have hfree := h.free
  rw [findOutside?, if_pos ⟨rfl, rfl⟩] at hfree
  cases hfree

namespace Phrase

/-! ## Headers and their parts -/

/-- **What the tokens of a header are, and what is read from them**; those `beyond` are read by
nobody. -/
inductive Header (p : Phrase) (beyond : List Token) : Opening → Prop
  /-- `for`, what is bound, the first `in` outside brackets, and what is gone through. -/
  | forLoop {keyword within : Token} {binding gone : List Token} {iterator iterable : Expr}
      (hp : p.tokens = keyword :: (binding ++ within :: gone)) (hbeyond : beyond = [])
      (hkeyword : keyword.text = "for") (hwithin : within.text = "in")
      (hbinding : Hides "in" binding) (hgone : gone ≠ [])
      (hiterator : Expr.readTarget (p.slice 1 (binding.length + 1)) .binding = .ok iterator)
      (hiterable : Expr.read (p.drop (binding.length + 2)) .value = .ok iterable) :
      Header p beyond (.forLoop iterator iterable)
  /-- `def`, a name, parentheses, and what stands between them. -/
  | function {keyword word o c : Token} {inner : List Token} {parameters : List Parameter}
      (hp : p.tokens = keyword :: word :: o :: (inner ++ c :: beyond))
      (hkeyword : keyword.text = "def") (hword : word.kind = .identifier)
      (ho : o.text = round.openerText) (hc : c.text = round.closerText) (hinner : Nested inner)
      (hparameters : ((p.slice 3 (inner.length + 3)).segments ",").mapM
        (p.slice 3 (inner.length + 3)).readParameter = .ok parameters) :
      Header p beyond (.function (.name word.text .definition) parameters)

variable {p : Phrase}

/-- With nothing beyond its parts, the header of a function ends where its parameters do. -/
theorem Header.exists_closer {name : Expr} {parameters : List Parameter}
    (h : p.Header [] (.function name parameters)) :
    ∃ c, p.tokens.getLast? = some c ∧ c.text = round.closerText := by
  cases h with
  | @function keyword word o c inner _ hp _ _ _ hc =>
    refine ⟨c, ?_, hc⟩
    rw [hp, ← List.cons_append, ← List.cons_append, ← List.cons_append, List.getLast?_concat]

/-! ## Where a text is found -/

/-- **A cut before what is found** has it hidden on its left. -/
theorem exists_hides_of_findOutside? {text : String} {k : Nat} {ts : List Token} (h : Nested ts)
    (hk : ScriptReader.findOutside? text 0 ts = some k) :
    ∃ as t bs, ts = as ++ t :: bs ∧ as.length = k ∧ t.text = text ∧ Hides text as
      ∧ Nested (t :: bs) := by
  obtain ⟨as, t, bs, rfl, rfl, ht, has, hbs⟩ := h.exists_cut hk
  refine ⟨as, t, bs, rfl, rfl, ht, ⟨has, ?_⟩, hbs⟩
  cases hfree : ScriptReader.findOutside? text 0 as with
  | none => rfl
  | some j =>
    have hlt := findOutside?_lt hfree
    rw [has.findOutside?_append, hfree] at hk
    exact absurd (Option.some.inj hk) hlt.ne

/-- The header ends behind what hides the colon. -/
theorem length_le_headerEnd {as bs : List Token} (hp : p.tokens = as ++ bs) (h : Hides ":" as) :
    as.length ≤ p.headerEnd := by
  rw [headerEnd, findOutside?, hp, h.nested.findOutside?_append, h.free, Option.none_or]
  cases ScriptReader.findOutside? ":" 0 bs with
  | none =>
    rw [Option.map_none, Option.getD_none, size, hp, List.length_append]
    exact Nat.le_add_right _ _
  | some k =>
    rw [Option.map_some, Option.getD_some]
    exact Nat.le_add_left _ _

/-- The header begins with what it reaches behind. -/
theorem tokens_header_of_append {as bs : List Token} (hp : p.tokens = as ++ bs)
    (hle : as.length ≤ p.headerEnd) :
    (p.take p.headerEnd).tokens = as ++ bs.take (p.headerEnd - as.length) := by
  rw [tokens_take, hp, List.take_append, List.take_of_length_le hle]

/-- The header is nested. -/
theorem nested_header (h : Nested p.tokens) : Nested (p.take p.headerEnd).tokens := by
  rw [headerEnd, tokens_take]
  cases hcolon : p.findOutside? ":" with
  | none => rwa [Option.getD_none, size, List.take_length]
  | some k => exact h.take hcolon

theorem tokens_header_append (p : Phrase) :
    p.tokens = (p.take p.headerEnd).tokens ++ p.tokens.drop p.headerEnd := by
  rw [tokens_take, List.take_append_drop]

theorem textAt_zero_of_header {t : Token} {ts : List Token}
    (h : (p.take p.headerEnd).tokens = t :: ts) : p.textAt 0 = t.text :=
  textAt_zero (p.tokens_header_append.trans (by rw [h]; rfl))

/-- The first token of a header is its keyword. -/
theorem exists_keyword {text : String} (hword : p.textAt 0 = text) (htext : text ∈ statementWords) :
    ∃ keyword ts, p.tokens = keyword :: ts ∧ keyword.text = text ∧ keyword.IsPlain := by
  cases hts : p.tokens with
  | nil =>
    rw [textAt, hts] at hword
    exact absurd (hword ▸ htext) (by decide)
  | cons keyword ts =>
    rw [textAt_zero hts] at hword
    exact ⟨keyword, ts, rfl, hword, Token.isPlain_of_mem_statementWords (hword ▸ htext)⟩

/-! ## Loops -/

section Loop

variable (hword : p.textAt 0 = "for") {o : Opening}
include hword

/-- What is read as the header of a loop consists of its parts. -/
theorem header_of_readForHeader (hn : Nested p.tokens) (h : p.readForHeader = .ok o) :
    (p.take p.headerEnd).Header [] o := by
  rw [readForHeader] at h
  dsimp only at h
  split at h
  · cases h
  next pos hpos =>
  split at h
  · cases h
  next hgone =>
  obtain ⟨iterator, hiterator, h⟩ := Expr.exists_of_bind_ok h
  obtain ⟨iterable, hiterable, h⟩ := Expr.exists_of_bind_ok h
  cases h
  obtain ⟨as, within, gone, hheader, rfl, hwithin, has, -⟩ :=
    exists_hides_of_findOutside? (nested_header hn) hpos
  obtain ⟨keyword, ts, hts, hkeyword, hplain⟩ := exists_keyword hword (by decide)
  have hsplit := hts.symm.trans (p.tokens_header_append.trans (by rw [hheader]))
  cases as with
  | nil =>
    obtain ⟨rfl, -⟩ := List.cons.inj hsplit
    exact absurd (hkeyword.symm.trans hwithin) (by decide)
  | cons first binding =>
    obtain ⟨rfl, -⟩ := List.cons.inj hsplit
    have hne : gone ≠ [] := by
      rintro rfl
      rw [isEmpty, tokens_drop_of_cons hheader] at hgone
      exact hgone rfl
    exact .forLoop hheader rfl hkeyword hwithin (has.tail hplain) hne hiterator hiterable

/-- What consists of the parts of a loop's header is read as it. -/
theorem readForHeader_of_header {beyond : List Token} (h : (p.take p.headerEnd).Header beyond o) :
    p.readForHeader = .ok o := by
  cases h with
  | forLoop hp _ hkeyword hwithin hbinding hgone hiterator hiterable =>
    rw [readForHeader_of_tokens hp hkeyword hwithin hbinding hgone, hiterator]
    simp only [bind, Except.bind, hiterable]
    rfl
  | function hp hkeyword =>
    rw [textAt_zero_of_header hp, hkeyword] at hword
    exact absurd hword (by decide)

end Loop

/-! ## Functions -/

/-- **The name of a function is one word**: no parentheses are around it, as the first ones are
those of the parameters. -/
theorem exists_word_of_readTarget {q : Phrase} {lookup : Lookup} {identifier : String}
    (hfree : ∀ t ∈ q.tokens.head?, t.text ≠ round.openerText)
    (h : Expr.read q lookup = .ok (.name identifier lookup)) :
    ∃ t, q.tokens = [t] ∧ t.kind = .identifier ∧ t.text = identifier := by
  obtain ⟨t, ⟨q', hq', htokens, hkind⟩, htext, -⟩ := Expr.isWord_of_read h
  have hstart : q.startsWith round.openerText = false := by
    cases hq : q.tokens with
    | nil => rw [startsWith, hasText, hq]; rfl
    | cons u us =>
      rw [startsWith_eq hq, beq_eq_false_iff_ne]
      exact hfree u (by rw [hq]; rfl)
  have hnot : q.isEnclosed .round = .ok false := by
    rw [isEnclosed, hstart]
    rfl
  obtain rfl := Except.ok.inj ((Expr.unwrap_of_not_enclosed hnot).symm.trans hq')
  exact ⟨t, htokens, hkind, htext⟩

/-- The header reaches behind the parameters. -/
theorem length_le_headerEnd_of_tokens {keyword word o c : Token} {inner rest : List Token}
    (hp : p.tokens = keyword :: word :: o :: (inner ++ c :: rest)) (hkeyword : keyword.text = "def")
    (hword : word.IsIdentifier) (ho : o.text = round.openerText) (hc : c.text = round.closerText)
    (hinner : Nested inner) : inner.length + 4 ≤ p.headerEnd := by
  have hplain : keyword.IsPlain :=
    Token.isPlain_of_mem_statementWords (by rw [hkeyword]; decide)
  have hbrackets : Hides ":" (o :: (inner ++ [c])) := .bracketed .round ho hc hinner (by decide)
  have hhides : Hides ":" (keyword :: ([word] ++ (o :: (inner ++ [c])))) :=
    ((hword.hides rfl).append hbrackets).cons hplain (by rw [hkeyword]; decide)
  have hsplit : p.tokens = keyword :: ([word] ++ (o :: (inner ++ [c]))) ++ rest := by
    rw [hp]
    simp
  have hle := length_le_headerEnd hsplit hhides
  simp only [List.length_cons, List.length_append, List.length_nil] at hle
  omega

section Function

variable {line : List Token} (h : p.Sound line) (hdef : p.textAt 0 = "def") {opening : Opening}
include h hdef

/-- Behind the keyword of a function that is read there are a name and parentheses. -/
theorem exists_tokens_of_readFunctionHeader (hread : p.readFunctionHeader = .ok opening) :
    ∃ keyword word o inner c rest, p.tokens = keyword :: word :: o :: (inner ++ c :: rest)
      ∧ keyword.text = "def" ∧ word.IsIdentifier ∧ o.text = round.openerText
      ∧ c.text = round.closerText ∧ Nested inner := by
  rw [readFunctionHeader] at hread
  split at hread
  · cases hread
  next pos hpos =>
  obtain ⟨name, hname, hread⟩ := Expr.exists_of_bind_ok hread
  dsimp only at hread
  split at hread
  · cases hread
  next hidentifier =>
  obtain ⟨identifier, rfl⟩ := Expr.eq_name_of_readTarget hname hidentifier
  obtain ⟨hname, -⟩ := Expr.readTarget_eq_ok_iff.mp hname
  obtain ⟨as, o, bs, hsplit, rfl, ho, has, hbs⟩ := exists_hides_of_findOutside? h.nested hpos
  obtain ⟨inner, c, rest, rfl, hc, hinner⟩ := hbs.exists_closer ho
  obtain ⟨keyword, ts, hts, hkeyword, hplain⟩ := exists_keyword hdef (by decide)
  cases as with
  | nil =>
    obtain ⟨rfl, -⟩ := List.cons.inj (hts.symm.trans hsplit)
    exact absurd ho (hplain.ne_openerText .round)
  | cons first as =>
    obtain ⟨rfl, -⟩ := List.cons.inj (hts.symm.trans hsplit)
    have hslice : (p.slice 1 (as.length + 1)).tokens = as := tokens_slice_header hsplit rfl
    have hfree : ∀ t ∈ (p.slice 1 (as.length + 1)).tokens.head?, t.text ≠ round.openerText := by
      rw [hslice]
      exact (has.tail hplain).head_ne
    obtain ⟨word, hword, hkind, -⟩ := exists_word_of_readTarget hfree hname
    obtain rfl := hslice.symm.trans hword
    have hlexeme : word.IsLexeme := h.isScanned word (by rw [hsplit]; simp)
    exact ⟨keyword, word, o, inner, c, rest, hsplit, hkeyword, ⟨hlexeme, hkind⟩, ho, hc, hinner⟩

/-- What is read as the header of a function consists of its parts, whatever is beyond them. -/
theorem header_of_readFunctionHeader (hread : p.readFunctionHeader = .ok opening) :
    ∃ beyond, (p.take p.headerEnd).Header beyond opening := by
  obtain ⟨keyword, word, o, inner, c, rest, hp, hkeyword, hword, ho, hc, hinner⟩ :=
    exists_tokens_of_readFunctionHeader h hdef hread
  have hle := length_le_headerEnd_of_tokens hp hkeyword hword ho hc hinner
  rw [readFunctionHeader_of_tokens hp hkeyword hword ho hc hinner] at hread
  obtain ⟨parameters, hparameters, rfl⟩ := Expr.exists_of_map_ok hread
  have hsplit : p.tokens = (keyword :: word :: o :: (inner ++ [c])) ++ rest := by
    rw [hp]
    simp
  have hlength : (keyword :: word :: o :: (inner ++ [c])).length = inner.length + 4 := by
    simp only [List.length_cons, List.length_append, List.length_nil]
  have hheader : (p.take p.headerEnd).tokens
      = keyword :: word :: o :: (inner ++ c :: rest.take (p.headerEnd - (inner.length + 4))) := by
    rw [tokens_header_of_append hsplit (hlength ▸ hle), hlength]
    simp only [List.cons_append, List.append_assoc, List.nil_append]
  rw [← slice_take (by omega) (by omega) p.headerEnd_le] at hparameters
  exact ⟨_, .function hheader hkeyword hword.kind_eq ho hc hinner hparameters⟩

/-- What consists of the parts of a function's header is read as it. -/
theorem readFunctionHeader_of_header {beyond : List Token}
    (hheader : (p.take p.headerEnd).Header beyond opening) :
    p.readFunctionHeader = .ok opening := by
  cases hheader with
  | forLoop hp _ hkeyword =>
    rw [textAt_zero_of_header hp, hkeyword] at hdef
    exact absurd hdef (by decide)
  | @function keyword word o c inner parameters hp hkeyword hkind ho hc hinner hparameters =>
    have hsplit : p.tokens = keyword :: word :: o
        :: (inner ++ c :: (beyond ++ p.tokens.drop p.headerEnd)) := by
      conv_lhs => rw [p.tokens_header_append, hp]
      simp
    have hword : word.IsIdentifier := ⟨h.isScanned word (by rw [hsplit]; simp), hkind⟩
    have hle := length_le_headerEnd_of_tokens hsplit hkeyword hword ho hc hinner
    rw [slice_take (by omega) (by omega) p.headerEnd_le] at hparameters
    rw [readFunctionHeader_of_tokens hsplit hkeyword hword ho hc hinner, hparameters]
    rfl

end Function

end Phrase

/-! ## Lines -/

/-- What is made of something that is read is made just if it is read. -/
theorem map_opening_eq_ok_iff {x : Except Error Opening} {o : Opening}
    {body body' : Option Phrase} :
    (Line.opening · body') <$> x = .ok (.opening o body) ↔ body = body' ∧ x = .ok o := by
  cases x with
  | error e => simp [Functor.map, Except.map]
  | ok o' => simp [Functor.map, Except.map, and_comm, eq_comm]

/-- **A line opens a loop or a function just if its header consists of the parts of one**, and what
follows the header's colon is left over. -/
theorem Line.read_opening_iff {src : Source} (hflaw : src.scan.flaw = none) {p : Phrase}
    (hp : Phrase.Formed (.whole src.scan.tokens) p)
    (hword : p.textAt 0 = "for" ∨ p.textAt 0 = "def") {o : Opening} {body : Option Phrase} :
    Line.read p = .ok (.opening o body) ↔ body = p.inlineBody?
      ∧ ∃ beyond, (p.take p.headerEnd).Header beyond o := by
  have hsound := (Phrase.sound_scan hflaw).formed hp
  rcases hword with hword | hword
  · rw [Line.read_for hword, map_opening_eq_ok_iff]
    refine and_congr_right fun _ => ⟨fun h => ?_, fun ⟨beyond, h⟩ => ?_⟩
    · exact ⟨[], Phrase.header_of_readForHeader hword hsound.nested h⟩
    · exact Phrase.readForHeader_of_header hword h
  · rw [Line.read_def hword, map_opening_eq_ok_iff]
    refine and_congr_right fun _ => ⟨fun h => ?_, fun ⟨beyond, h⟩ => ?_⟩
    · exact Phrase.header_of_readFunctionHeader hsound hword h
    · exact Phrase.readFunctionHeader_of_header hsound hword h

/-- In `for x.(a in b) in c: y` the first `in` is between brackets, and the second one divides the
header. -/
theorem Line.read_opening_iff_loop :
    let src := Source.ofString "for x.(a in b) in c: y"
    let p := Phrase.whole src.scan.tokens
    let o : Opening := .forLoop
      (.binary .member (.name "x" .value) (.binary .within (.name "a" .value) (.name "b" .binding)))
      (.name "c" .value)
    src.scan.flaw = none ∧ Phrase.Formed (.whole src.scan.tokens) p ∧ p.textAt 0 = "for"
      ∧ Line.read p = .ok (.opening o (some (p.drop 11)))
      ∧ (Line.read p = .ok (.opening o (some (p.drop 11))) ↔ some (p.drop 11) = p.inlineBody?
        ∧ ∃ beyond, (p.take p.headerEnd).Header beyond o) :=
  have hflaw : (Source.ofString "for x.(a in b) in c: y").scan.flaw = none := by decide +kernel
  have hword : (Phrase.whole (Source.ofString "for x.(a in b) in c: y").scan.tokens).textAt 0
      = "for" := by
    decide +kernel
  ⟨hflaw, .refl, hword, by with_unfolding_all rfl, read_opening_iff hflaw .refl (.inl hword)⟩

/-- `def f(a) junk: x` is read, and its header does not end at the parameters: `junk` is beyond
them. -/
theorem Script.read_function_beyond :
    let p := Phrase.whole (Source.ofString "def f(a) junk: x").scan.tokens
    let o : Opening := .function (.name "f" .definition) [⟨"a", .none⟩]
    Script.read "def f(a) junk: x" = .ok [.function (.name "f" .definition) [⟨"a", .none⟩]
        [.expression (.name "x" .value)]]
      ∧ Line.read p = .ok (.opening o (some (p.drop 7)))
      ∧ (p.take p.headerEnd).tokens.getLast? = some ⟨.identifier, "junk", 1⟩
      ∧ ¬(p.take p.headerEnd).Header [] o := by
  have hlast : ((Phrase.whole (Source.ofString "def f(a) junk: x").scan.tokens).take
      (Phrase.whole (Source.ofString "def f(a) junk: x").scan.tokens).headerEnd).tokens.getLast?
        = some ⟨.identifier, "junk", 1⟩ := by
    decide +kernel
  refine ⟨by rw [Script.read_eq]; with_unfolding_all rfl, by with_unfolding_all rfl, hlast,
    fun h => ?_⟩
  obtain ⟨c, hc, htext⟩ := h.exists_closer
  obtain rfl := Option.some.inj (hlast.symm.trans hc)
  exact absurd htext (by decide)

end ScriptReader

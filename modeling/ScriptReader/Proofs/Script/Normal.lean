import ScriptReader.Proofs.Script.Statements
import ScriptReader.Proofs.Source.Breaks

/-!
# Proofs/Script/Normal — layout does not matter

Every source without a flaw lays out its statements (`Source.laid_statements`), as does the text
that has one statement on a line, with one blank between any two tokens
(`Source.exists_laid_normal`).  Reading goes by the kinds and texts of tokens alone, so that all
texts that lay out the same statements are read alike: `Script.layout_does_not_matter`.
-/

namespace ScriptReader

open Blocks

/-! ## Tokens on other lines -/

/-- The same tokens, on whatever lines. -/
abbrev SameTokens : List Token → List Token → Prop := TokensAlike fun _ _ => True

/-- The same statements, on whatever lines. -/
abbrev SameStatements : List (List Token) → List (List Token) → Prop := List.Forall₂ SameTokens

/-- What tells statements apart from others: the kinds and the texts of their tokens. -/
def outline (lines : List (List Token)) : List (List (Kind × String)) :=
  lines.map (List.map fun t => (t.kind, t.text))

theorem sameTokens_iff {ts us : List Token} :
    SameTokens ts us ↔ ts.map (fun t => (t.kind, t.text)) = us.map fun t => (t.kind, t.text) := by
  have htoken : Token.Alike (fun _ _ => True) = fun t u => (t.kind, t.text) = (u.kind, u.text) := by
    funext t u
    exact propext ⟨fun h => Prod.ext h.kind_eq h.text_eq,
      fun h => ⟨congrArg Prod.fst h, congrArg Prod.snd h, trivial⟩⟩
  rw [SameTokens, TokensAlike, htoken, ← List.forall₂_eq_eq_eq, List.forall₂_map_left_iff,
    List.forall₂_map_right_iff]

theorem sameStatements_iff {lines lines' : List (List Token)} :
    SameStatements lines lines' ↔ outline lines = outline lines' := by
  rw [outline, outline, ← List.forall₂_eq_eq_eq, List.forall₂_map_left_iff,
    List.forall₂_map_right_iff]
  simp only [← sameTokens_iff]

/-- Which brackets tokens close depends on their texts alone. -/
theorem Closes.alike {R : Nat → Nat → Prop} {open_ : List Bracket} {ts us : List Token}
    (h : Closes open_ ts) (hus : TokensAlike R ts us) : Closes open_ us := by
  induction h generalizing us with
  | nil =>
    cases hus
    exact .nil
  | plain ht _ ih =>
    obtain _ | ⟨hu, hus⟩ := hus
    exact .plain ⟨hu.text_eq ▸ ht.opener, hu.text_eq ▸ ht.closer⟩ (ih hus)
  | opener ht _ ih =>
    obtain _ | ⟨hu, hus⟩ := hus
    exact .opener (hu.text_eq ▸ ht) (ih hus)
  | closer ht _ ih =>
    obtain _ | ⟨hu, hus⟩ := hus
    exact .closer (hu.text_eq ▸ ht) (ih hus)

/-! ## A source lays out its statements -/

section Laid

variable {depth line : Nat} {begun : Bool} {ts : List Token} {lines : List (List Token)}
  {text rest : List Char}

theorem Laid.blanks (htext : ∀ c ∈ text, isBlank c) (h : Laid depth begun line ts lines rest) :
    Laid depth begun line ts lines (text ++ rest) := by
  induction text with
  | nil => exact h
  | cons c text ih =>
    obtain ⟨hc, htext⟩ := List.forall_mem_cons.mp htext
    exact .blank hc (ih htext)

/-- Trivia can stand anywhere. -/
theorem Laid.trivia (htext : Stretch.IsTrivia rest (.blank text))
    (h : Laid depth begun (line + text.count '\n') ts lines rest) :
    Laid depth begun line ts lines (text ++ rest) := by
  cases htext with
  | blanks hblank =>
    have hall : ∀ c ∈ text, isBlank c = true := fun c hc => by
      rcases hblank c hc with rfl | rfl | rfl <;> rfl
    rw [Source.count_newline_eq_zero fun c hc => Source.ne_newline_of_isBlank (hall c hc)] at h
    exact .blanks hall h
  | @comment cs hcs hrest =>
    have hcount : ('#' :: cs).count '\n' = 0 := List.count_eq_zero.mpr (by simpa using hcs)
    rw [hcount] at h
    exact .comment hcs hrest h
  | @continued cs hcs =>
    have hcount : ('\\' :: cs).count '\n' = 1 := by rcases hcs with rfl | rfl <;> rfl
    rw [hcount] at h
    exact .continued hcs h

end Laid

namespace Source

variable {open_ : Brackets} {begun : Bool} {src next : Source} {lines : List (List Token)}

/-- What is passed over is layout. -/
theorem laid_of_skip {ts : List Token} (hmove : src.move open_ begun = .skip next)
    (h : Laid open_.length begun next.line ts lines next.rest) :
    Laid open_.length begun src.line ts lines src.rest := by
  cases moves_of_eq hmove with
  | @blank text rest hpiece =>
    rw [← text_append_of_piece? hpiece]
    exact h.trivia (isTrivia_of_blank hpiece)
  | @separator mark rest hpiece hopen =>
    rw [← text_append_of_piece? hpiece]
    refine .skipped ?_ ?_ h
    · cases isTrivia_of_separator hpiece with
      | separator hmark => rcases hmark with rfl | rfl <;> rfl
    · cases begun with
      | false => exact .inl rfl
      | true => exact .inr (List.length_pos_iff.mpr (hopen rfl))

/-- What is made a token of is a lexeme, with what may follow it. -/
theorem lexeme_of_form {kind : Kind} {text : List Char} {open' : Brackets}
    (hmove : src.move open_ begun = .form kind text open' next) :
    let t : Token := ⟨kind, String.ofList text, src.line⟩
    t.IsLexeme ∧ t.EndsBefore next.rest ∧ src.rest = t.text.toList ++ next.rest
      ∧ next.line = t.line + t.text.toList.count '\n'
      ∧ open'.length = depthAfter open_.length t.text := by
  cases moves_of_eq hmove with
  | @lexeme _ _ rest _ hpiece hpass =>
    intro t
    have htext : t.text.toList = text := String.toList_ofList
    rw [← htext] at hpiece hpass
    refine ⟨piece?_text hpiece, endsBefore_of_piece? hpiece, ?_, ?_, ?_⟩
    · exact (text_append_of_piece? hpiece).symm
    · rw [htext]
      rfl
    · exact Brackets.length_of_pass? hpass

/-- Behind the last statement there is nothing but layout. -/
theorem laid_scanFrom_nil (h : (src.scanFrom open_ begun).flaw = none) (hbegun : begun = false)
    (hopen : open_ = []) (hnil : (src.scanFrom open_ begun).tokens = []) :
    Laid 0 false src.line [] [] src.rest := by
  induction open_, begun, src using induction_on_moves with
  | skip open_ begun src next hmove ih =>
    rw [scanFrom_of_skip hmove] at h hnil
    subst hbegun hopen
    exact laid_of_skip hmove (ih h rfl rfl hnil)
  | form open_ begun src kind text open' next hmove ih =>
    rw [scanFrom_of_form hmove] at hnil
    exact absurd hnil (List.cons_ne_nil _ _)
  | stop open_ begun src next flaw hmove =>
    rw [scanFrom_of_stop hmove] at h
    obtain rfl : flaw = none := h
    cases moves_of_eq hmove with
    | finished _ htrue _ => exact absurd (hbegun.symm.trans htrue) Bool.false_ne_true
    | ended hrest _ =>
      rw [hrest]
      exact .done

/-- A statement that has begun is laid out up to its end. -/
theorem laid_scanFrom_begun (h : (src.scanFrom open_ begun).flaw = none) (hbegun : begun = true)
    (hnext : Laid 0 false (src.scanFrom open_ begun).source.line [] lines
      (src.scanFrom open_ begun).source.rest)
    (hend : (src.scanFrom open_ begun).source.rest = [] → lines = []) :
    Laid open_.length true src.line (src.scanFrom open_ begun).tokens lines src.rest := by
  induction open_, begun, src using induction_on_moves with
  | skip open_ begun src next hmove ih =>
    subst hbegun
    rw [scanFrom_of_skip hmove] at h hnext hend ⊢
    exact laid_of_skip hmove (ih h rfl hnext hend)
  | form open_ begun src kind text open' next hmove ih =>
    rw [scanFrom_of_form hmove] at h hnext hend ⊢
    obtain ⟨hlexeme, hends, hrest, hline, hdepth⟩ := lexeme_of_form hmove
    have hmore := ih h rfl hnext hend
    rw [hline, hdepth] at hmore
    rw [hrest]
    exact .token hlexeme hends hmore
  | stop open_ begun src next flaw hmove =>
    rw [scanFrom_of_stop hmove] at h hnext hend ⊢
    obtain rfl : flaw = none := h
    cases moves_of_eq hmove with
    | @finished mark rest hpiece _ hopen =>
      subst hopen
      rw [← text_append_of_piece? hpiece]
      cases isTrivia_of_separator hpiece with
      | separator hmark =>
        refine .separator ?_ hnext
        rcases hmark with rfl | rfl <;> rfl
    | ended hrest hopen =>
      subst hopen
      rw [hrest, hend hrest]
      exact .done

/-- So is a statement from the layout before it on. -/
theorem laid_scanFrom_fresh (h : (src.scanFrom open_ begun).flaw = none) (hbegun : begun = false)
    (hopen : open_ = []) (hne : (src.scanFrom open_ begun).tokens ≠ [])
    (hnext : Laid 0 false (src.scanFrom open_ begun).source.line [] lines
      (src.scanFrom open_ begun).source.rest)
    (hend : (src.scanFrom open_ begun).source.rest = [] → lines = []) :
    Laid 0 false src.line [] ((src.scanFrom open_ begun).tokens :: lines) src.rest := by
  induction open_, begun, src using induction_on_moves with
  | skip open_ begun src next hmove ih =>
    subst hbegun hopen
    rw [scanFrom_of_skip hmove] at h hne hnext hend ⊢
    exact laid_of_skip hmove (ih h rfl rfl hne hnext hend)
  | form open_ begun src kind text open' next hmove ih =>
    subst hopen
    rw [scanFrom_of_form hmove] at h hnext hend ⊢
    obtain ⟨hlexeme, hends, hrest, hline, hdepth⟩ := lexeme_of_form hmove
    have hmore := laid_scanFrom_begun h rfl hnext hend
    rw [hline, hdepth] at hmore
    rw [hrest]
    exact .first hlexeme hends hmore
  | stop open_ begun src next flaw hmove =>
    rw [scanFrom_of_stop hmove] at hne
    exact absurd rfl hne

/-- At the end of a text no statements are left. -/
theorem statements_of_rest_nil (h : src.rest = []) : src.statements = [] := by
  obtain ⟨rest, line⟩ := src
  obtain rfl : rest = [] := h
  refine statements_of_not_hasNext fun hnext => hnext.2 ?_
  rw [scan, scanFrom_nil]
  rfl

/-- **A source without a flaw lays out its statements.** -/
theorem laid_statements (h : src.Lexes) : Laid 0 false src.line [] src.statements src.rest := by
  induction src using induction_on_statements with
  | next src hnext ih =>
    rw [Lexes, lastScan_of_hasNext hnext] at h
    rw [statements_of_hasNext hnext]
    exact laid_scanFrom_fresh hnext.1 rfl rfl hnext.2 (ih h) statements_of_rest_nil
  | last src hlast =>
    rw [Lexes, lastScan_of_not_hasNext hlast] at h
    rw [statements_of_not_hasNext hlast]
    exact laid_scanFrom_nil h rfl rfl (by_contra fun hne => hlast ⟨h, hne⟩)

/-! ## The normal text -/

/-- The text that has one statement on a line, and one blank between any two tokens. -/
def normal (src : Source) : String :=
  "\n".intercalate (src.statements.map fun ts => (Phrase.whole ts).spelling)

end Source

/-- The tokens of a statement behind its first one, with a blank before each. -/
def spelledOn (ts : List Token) : List Char := ts.flatMap fun t => ' ' :: t.text.toList

/-- Statements behind the first one, with a line break before each. -/
def spelledBelow (lines : List (List Token)) : List Char :=
  lines.flatMap fun ts => '\n' :: (Phrase.whole ts).spelling.toList

theorem toList_spelling (t : Token) (ts : List Token) :
    (Phrase.whole (t :: ts)).spelling.toList = t.text.toList ++ spelledOn ts := by
  rw [Phrase.spelling, Phrase.whole, List.map_cons]
  induction ts generalizing t with
  | nil => simp [spelledOn]
  | cons u ts ih =>
    rw [List.map_cons, String.intercalate_cons_cons, String.toList_append, String.toList_append,
      ih u, List.append_assoc]
    rfl

theorem Source.toList_normal {src : Source} {ts : List Token} {lines : List (List Token)}
    (h : src.statements = ts :: lines) :
    src.normal.toList = (Phrase.whole ts).spelling.toList ++ spelledBelow lines := by
  rw [normal, h, List.map_cons]
  clear h
  induction lines generalizing ts with
  | nil => simp [spelledBelow]
  | cons us lines ih =>
    rw [List.map_cons, String.intercalate_cons_cons, String.toList_append, String.toList_append,
      ih, List.append_assoc]
    rfl

/-- Behind a token there is a blank, a line break or nothing. -/
theorem head?_spelledOn (ts : List Token) (lines : List (List Token)) :
    ∀ c ∈ (spelledOn ts ++ spelledBelow lines).head?, c = ' ' ∨ c = '\n' := by
  cases ts with
  | cons t ts =>
    intro c hc
    cases hc
    exact .inl rfl
  | nil =>
    cases lines with
    | nil => exact nofun
    | cons us lines =>
      intro c hc
      cases hc
      exact .inr rfl

/-- What can be spelled: lexemes that close what they open. -/
structure Spellable (ts : List Token) : Prop where
  ne_nil : ts ≠ []
  isLexeme : ∀ t ∈ ts, t.IsLexeme
  closes : Closes [] ts

theorem Source.spellable_statements (src : Source) : ∀ ts ∈ src.statements, Spellable ts := by
  induction src using induction_on_statements with
  | next src h ih =>
    rw [statements_of_hasNext h]
    exact List.forall_mem_cons.mpr
      ⟨⟨h.2, fun _ => isLexeme_of_mem_scan, (nested_scan h.1).closes⟩, ih⟩
  | last src h =>
    rw [statements_of_not_hasNext h]
    exact nofun

section Spelled

variable {lines : List (List Token)}

/-- **Spelled tokens are laid out**, whatever the line, if the lines below them are. -/
theorem exists_laid_spelledOn {ts : List Token} {open_ : List Bracket}
    (hts : ∀ t ∈ ts, t.IsLexeme) (hcloses : Closes open_ ts)
    (hbelow : ∀ line, ∃ lines', SameStatements lines lines'
      ∧ Laid 0 true line [] lines' (spelledBelow lines)) (line : Nat) :
    ∃ ts' lines', SameTokens ts ts' ∧ SameStatements lines lines'
      ∧ Laid open_.length true line ts' lines' (spelledOn ts ++ spelledBelow lines) := by
  induction ts generalizing open_ line with
  | nil =>
    cases hcloses
    obtain ⟨lines', hlines, hlaid⟩ := hbelow line
    exact ⟨[], lines', .nil, hlines, hlaid⟩
  | cons t ts ih =>
    obtain ⟨ht, hts⟩ := List.forall_mem_cons.mp hts
    obtain ⟨open', hcloses', hlength⟩ := hcloses.uncons
    let placed : Token := { t with line := line }
    obtain ⟨ts', lines', hsame, hlines, hlaid⟩ :=
      ih hts hcloses' (line + t.text.toList.count '\n')
    have hends : placed.EndsBefore (spelledOn ts ++ spelledBelow lines) :=
      ht.endsBefore (head?_spelledOn ts lines)
    rw [hlength] at hlaid
    refine ⟨placed :: ts', lines', .cons ⟨rfl, rfl, trivial⟩ hsame, hlines, ?_⟩
    rw [spelledOn, List.flatMap_cons, List.append_assoc, List.cons_append]
    exact .blank rfl (@Laid.token _ placed _ _ _ ht hends hlaid)

/-- So is a statement, from its first token on. -/
theorem exists_laid_spelling {ts : List Token} (hts : Spellable ts)
    (hbelow : ∀ line, ∃ lines', SameStatements lines lines'
      ∧ Laid 0 true line [] lines' (spelledBelow lines)) (line : Nat) :
    ∃ lines', SameStatements (ts :: lines) lines'
      ∧ Laid 0 false line [] lines'
        ((Phrase.whole ts).spelling.toList ++ spelledBelow lines) := by
  obtain ⟨hne, hlexemes, hcloses⟩ := hts
  obtain ⟨t, ts, rfl⟩ := List.exists_cons_of_ne_nil hne
  obtain ⟨ht, hts⟩ := List.forall_mem_cons.mp hlexemes
  obtain ⟨open', hcloses', hlength⟩ := hcloses.uncons
  let placed : Token := { t with line := line }
  obtain ⟨ts', lines', hsame, hlines, hlaid⟩ :=
    exists_laid_spelledOn hts hcloses' hbelow (line + t.text.toList.count '\n')
  have hends : placed.EndsBefore (spelledOn ts ++ spelledBelow lines) :=
    ht.endsBefore (head?_spelledOn ts lines)
  rw [hlength] at hlaid
  refine ⟨(placed :: ts') :: lines', .cons (.cons ⟨rfl, rfl, trivial⟩ hsame) hlines, ?_⟩
  rw [toList_spelling, List.append_assoc]
  exact @Laid.first placed _ _ _ ht hends hlaid

/-- So are lines, each behind a line break. -/
theorem exists_laid_spelledBelow (h : ∀ ts ∈ lines, Spellable ts) (line : Nat) :
    ∃ lines', SameStatements lines lines' ∧ Laid 0 true line [] lines' (spelledBelow lines) := by
  induction lines generalizing line with
  | nil => exact ⟨[], .nil, .done⟩
  | cons ts lines ih =>
    obtain ⟨hts, hlines⟩ := List.forall_mem_cons.mp h
    obtain ⟨lines', hsame, hlaid⟩ := exists_laid_spelling hts (ih hlines) (line + 1)
    exact ⟨lines', hsame, .separator rfl hlaid⟩

end Spelled

/-- **The normal text lays out the same statements.** -/
theorem Source.exists_laid_normal (src : Source) :
    ∃ lines, SameStatements src.statements lines ∧ Laid 0 false 1 [] lines src.normal.toList := by
  have hspellable := src.spellable_statements
  cases hstatements : src.statements with
  | nil =>
    refine ⟨[], .nil, ?_⟩
    rw [normal, hstatements]
    exact .done
  | cons ts lines =>
    rw [hstatements] at hspellable
    obtain ⟨hts, hlines⟩ := List.forall_mem_cons.mp hspellable
    rw [toList_normal hstatements]
    exact exists_laid_spelling hts (exists_laid_spelledBelow hlines) 1

/-! ## Reading -/

/-- Two readings come to the same script, or are refused by the same rule for the same kind of
reason. -/
inductive Script.Agree : Except Error Script → Except Error Script → Prop
  | ok (c : Script) : Agree (.ok c) (.ok c)
  | error {problem problem' : Problem} {line line' : Nat}
      (hcategory : problem'.category = problem.category)
      (hcontext : problem'.context = problem.context) :
      Agree (.error (.script problem line)) (.error (.script problem' line'))

theorem Parallel.agree {R : Nat → Nat → Prop} {x y : Except Error Script}
    (h : Parallel R (fun c c' => c' = [] ++ c) x y) : Script.Agree x y := by
  cases h with
  | ok heq =>
    subst heq
    exact .ok _
  | error _ hproblem _ => exact .error hproblem.category_eq.symm hproblem.context_eq.symm

/-- **The same statements are read alike.** -/
theorem Script.agree_of_sameStatements {s s' : String} (h : (Source.ofString s).Lexes)
    (h' : (Source.ofString s').Lexes)
    (hsame : SameStatements (Source.ofString s).statements (Source.ofString s').statements) :
    Agree (Script.read s) (Script.read s') := by
  have hbase : Follows [] .empty .empty := ⟨rfl, rfl⟩
  rw [Script.read_statements, Script.read_statements]
  refine Parallel.agree
    ((feedAll_alike hsame (Source.statement_ne_nil _) hbase).bind fun b b' _ hb => ?_)
  rw [Scan.conclude_of_lexes h, Scan.conclude_of_lexes h']
  exact finish_alike hb trivial

theorem closes_of_sameStatements {lines lines' : List (List Token)}
    (h : SameStatements lines lines') (hlines : ∀ ts ∈ lines, Spellable ts) :
    ∀ ts ∈ lines', Closes [] ts ∧ ts ≠ [] := by
  induction h with
  | nil => exact nofun
  | cons hts _ ih =>
    obtain ⟨hspellable, hlines⟩ := List.forall_mem_cons.mp hlines
    refine List.forall_mem_cons.mpr ⟨⟨hspellable.closes.alike hts, ?_⟩, ih hlines⟩
    rintro rfl
    exact hspellable.ne_nil (List.forall₂_nil_right_iff.mp hts)

/-- A text that lays out the same statements has no flaw, and is read alike. -/
theorem Script.agree_of_laid {s s' : String} {lines : List (List Token)}
    (h : (Source.ofString s).Lexes) (hlaid : Laid 0 false 1 [] lines s'.toList)
    (hsame : SameStatements (Source.ofString s).statements lines) :
    (Source.ofString s').Lexes ∧ (Source.ofString s').statements = lines
      ∧ Agree (Script.read s) (Script.read s') := by
  have hcloses := closes_of_sameStatements hsame (Source.spellable_statements _)
  obtain ⟨hstatements, hlexes⟩ := @Source.statements_laid (.ofString s') _ hcloses hlaid
  refine ⟨hlexes, hstatements, agree_of_sameStatements h hlexes ?_⟩
  rw [hstatements]
  exact hsame

/-- **Layout does not matter.**  The normal text of a source without a flaw has the same statements
and is read alike.  The source lays out its statements, and so does any other text that lays out the
same ones: with blanks, comments and continued lines anywhere between tokens, with line breaks and
semicolons between statements, before them and within brackets. -/
theorem Script.layout_does_not_matter {s : String} (h : (Source.ofString s).Lexes) :
    ((Source.ofString (Source.ofString s).normal).Lexes
      ∧ outline (Source.ofString (Source.ofString s).normal).statements
        = outline (Source.ofString s).statements
      ∧ Agree (Script.read s) (Script.read (Source.ofString s).normal))
    ∧ Laid 0 false 1 [] (Source.ofString s).statements s.toList
    ∧ ∀ s' lines, Laid 0 false 1 [] lines s'.toList →
        outline lines = outline (Source.ofString s).statements →
          Agree (Script.read s) (Script.read s') := by
  refine ⟨?_, Source.laid_statements h, fun s' lines hlaid houtline => ?_⟩
  · obtain ⟨lines, hsame, hlaid⟩ := (Source.ofString s).exists_laid_normal
    obtain ⟨hlexes, hstatements, hagree⟩ := agree_of_laid h hlaid hsame
    rw [hstatements]
    exact ⟨hlexes, (sameStatements_iff.mp hsame).symm, hagree⟩
  · exact (agree_of_laid h hlaid (sameStatements_iff.mpr houtline.symm)).2.2

/-- A call over two lines, an empty string against an equals sign, and a comment. -/
theorem Script.layout_does_not_matter_call :
    let s := "f(1,\n 2);x=\"\" # y\n"
    (Source.ofString s).normal = "f ( 1 , 2 )\nx = \"\""
      ∧ Agree (Script.read s) (Script.read "f ( 1 , 2 )\nx = \"\"") := by
  intro s
  have hlexes : (Source.ofString s).Lexes := by decide +kernel
  have hnormal : (Source.ofString s).normal = "f ( 1 , 2 )\nx = \"\"" := by decide +kernel
  refine ⟨hnormal, ?_⟩
  rw [← hnormal]
  exact (Script.layout_does_not_matter hlexes).1.2.2

end ScriptReader

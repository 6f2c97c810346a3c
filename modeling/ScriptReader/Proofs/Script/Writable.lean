import ScriptReader.Proofs.Expr.Writable
import ScriptReader.Proofs.Script.RoundTrip

/-!
# Proofs/Script/Writable — every script has a source, and any source of it reads back

`Stmt.Writable` is the fragment of statements that source code can write: all of them, with
expressions of `Expr.Writable` whose names are placed by position, with names and members to assign
to, and with words as names of functions and parameters.  `script_round_trip` says that a script of
such statements has a source, and that whichever source writes it is read back.
-/

namespace ScriptReader

/-- The parameter with the names of its default placed. -/
def Parameter.placed (p : Parameter) : Parameter := ⟨p.name, p.default?.map (·.placed .value)⟩

/-- **The statements that can be written.** -/
inductive Stmt.Writable : Stmt → Prop
  | expression {e : Expr} (h : e.Writable) : Writable (.expression (e.placed .value))
  | print {es : List Expr} (h : ∀ e ∈ es, e.Writable) : Writable (.print (Expr.placedAll es))
  | choice {b : Branch} {branches : List Branch} {otherwise : Option (List Stmt)}
      (hconditions : ∀ x ∈ b :: branches, x.1.Writable)
      (hbodies : ∀ x ∈ b :: branches, ∀ s ∈ x.2, Writable s)
      (hbody : ∀ body ∈ otherwise, ∀ s ∈ body, Writable s) :
      Writable (.choice ((b :: branches).map fun x => (x.1.placed .value, x.2)) otherwise)
  | whileLoop {condition : Expr} {body : List Stmt} (h : condition.Writable)
      (hbody : ∀ s ∈ body, Writable s) : Writable (.whileLoop (condition.placed .value) body)
  | forLoop {iterator iterable : Expr} {body : List Stmt} (htarget : iterator.IsBindable)
      (hi : iterator.Writable) (h : iterable.Writable) (hbody : ∀ s ∈ body, Writable s) :
      Writable (.forLoop (iterator.placed .binding) (iterable.placed .value) body)
  | jump (kind : Jump) : Writable (.jump kind none)
  | jumpWith {kind : Jump} {e : Expr} (hkind : kind ≠ .continueLoop) (h : e.Writable) :
      Writable (.jump kind (some (e.placed .value)))
  | assign {target value : Expr} {indices : List Expr} {lookup : Lookup}
      (htarget : target.IsBindable) (ht : target.Writable) (hindices : ∀ e ∈ indices, e.Writable)
      (hlookup : lookup = .binding ∨ lookup = .rebinding) (hv : value.Writable) :
      Writable (.assign (target.placed lookup) (Expr.placedAll indices) (value.placed .value))
  | function {name : String} {parameters : List Parameter} {body : List Stmt}
      (hname : IsIdentifier name) (hnames : ∀ p ∈ parameters, IsIdentifier p.name)
      (hdefaults : ∀ p ∈ parameters, ∀ e ∈ p.default?, e.Writable)
      (hbody : ∀ s ∈ body, Writable s) :
      Writable (.function (.name name .definition) (parameters.map (·.placed)) body)

/-! ## Parts of statements -/

/-- A keyword to write with. -/
theorem exists_keyword (text : String) (h : text ∈ statementWords) :
    ∃ t : Token, t.Spells text ∧ t.IsDraft := by
  have hpiece : ∀ text ∈ statementWords,
      piece? text.toList = some (.lexeme .keyword text.toList, []) ∧ '\n' ∉ text.toList := by decide
  exact exists_spells _ _ (hpiece text h).1 (hpiece text h).2

theorem exists_indices {es : List Expr} (h : ∀ e ∈ es, e.Writable) :
    ∃ xs : List WrittenIndex, xs.map (·.index) = es
      ∧ ∀ x ∈ xs, Encloses .square x.opener x.closer ∧ Written 0 x.index x.indexTokens
        ∧ Drafted x.tokens := by
  obtain ⟨o, c, hb, ho, hc⟩ := exists_encloses .square
  refine exists_map_eq fun e he => ?_
  obtain ⟨ts, hts, hdraft⟩ := (h e he).hasWriting
  exact ⟨⟨o, e, ts, c⟩, rfl, hb, hts, .bracketed ho hc hdraft⟩

theorem exists_assignmentOperator {lookup : Lookup}
    (h : lookup = .binding ∨ lookup = .rebinding) :
    ∃ t, AssignmentOperator lookup t ∧ t.IsDraft := by
  obtain rfl | rfl := h
  · obtain ⟨t, ht, hdraft⟩ := exists_spells "=" .operator rfl (by decide)
    exact ⟨t, .binding ht, hdraft⟩
  · obtain ⟨t, ht, hdraft⟩ := exists_spells ":=" .operator rfl (by decide)
    exact ⟨t, .rebinding ht, hdraft⟩

theorem exists_parameters {ps : List Parameter} (hnames : ∀ p ∈ ps, IsIdentifier p.name)
    (hdefaults : ∀ p ∈ ps, ∀ e ∈ p.default?, e.Writable) :
    ∃ xs : List WrittenParameter, xs.map (·.parameter) = ps.map (·.placed)
      ∧ ∀ x ∈ xs, x.IsWritten ∧ Drafted x.tokens := by
  obtain ⟨equals, hequals, hdraft⟩ := exists_spells "=" .operator rfl (by decide)
  refine exists_map_eq (List.forall_mem_map.mpr fun p hp => ?_)
  have hname := hnames p hp
  have hname' : Token.IsIdentifier ⟨.identifier, p.name, 1⟩ := ⟨hname, rfl⟩
  obtain ⟨name, default?⟩ := p
  cases default? with
  | none => exact ⟨⟨_, none⟩, rfl, ⟨hname', fun _ _ _ h => by cases h⟩, .singleton hname.isDraft⟩
  | some e =>
    obtain ⟨ts, hts, htsdraft⟩ := (hdefaults _ hp e rfl).hasWriting
    refine ⟨⟨⟨.identifier, name, 1⟩, some (equals, e, ts)⟩, rfl, ⟨hname', ?_⟩,
      .cons hname.isDraft (.cons hdraft htsdraft)⟩
    intro equals' e' ts' h
    cases h
    exact ⟨hequals, hts⟩

/-! ## Bodies -/

/-- The statement can be written with tokens of the first line. -/
def Stmt.HasWriting (s : Stmt) : Prop :=
  ∃ first below, s.Written first below ∧ ∀ ts ∈ first :: below, Drafted ts

/-- What is written on one line. -/
theorem Stmt.WrittenOnLine.hasWriting {s : Stmt} {ts : List Token} (h : s.WrittenOnLine ts)
    (hdraft : Drafted ts) : s.HasWriting :=
  ⟨ts, [], .onLine h, List.forall_mem_singleton.mpr hdraft⟩

/-- Writings for the statements of a body. -/
theorem exists_body {body : List Stmt} (h : ∀ s ∈ body, s.HasWriting) :
    ∃ xs : List WrittenStmt, xs.map (·.stmt) = body
      ∧ ∀ x ∈ xs, x.stmt.Written x.first x.below ∧ ∀ ts ∈ x.lines, Drafted ts := by
  refine exists_map_eq fun s hs => ?_
  obtain ⟨first, below, hwritten, hdraft⟩ := h s hs
  exact ⟨⟨s, first, below⟩, rfl, hwritten, hdraft⟩

theorem drafted_lines {xs : List WrittenStmt} (h : ∀ x ∈ xs, ∀ ts ∈ x.lines, Drafted ts) :
    ∀ ts ∈ xs.flatMap WrittenStmt.lines, Drafted ts := fun ts hts => by
  obtain ⟨x, hx, hmem⟩ := List.mem_flatMap.mp hts
  exact h x hx ts hmem

/-- A header with its body below it. -/
theorem Opening.Written.hasWriting {o : Opening} {header : List Token} (ho : o.Written header)
    (hdraft : Drafted header) {body : List Stmt} (hbody : ∀ s ∈ body, s.HasWriting) :
    (o.close body).HasWriting := by
  obtain ⟨xs, rfl, hxs⟩ := exists_body hbody
  obtain ⟨last, hlast, hlastdraft⟩ := exists_keyword "end" (by decide)
  have hcolon : ∀ t ∈ (none : Option Token), t.Spells ":" := fun _ h => by cases h
  refine ⟨_, _, .block ho hcolon (fun x hx => (hxs x hx).1) hlast, ?_⟩
  rw [Option.toList_none, List.append_nil]
  refine List.forall_mem_cons.mpr ⟨hdraft, List.forall_mem_append.mpr
    ⟨drafted_lines fun x hx => (hxs x hx).2, ?_⟩⟩
  exact List.forall_mem_singleton.mpr (.singleton hlastdraft)

/-- A branch that can be written behind a keyword. -/
structure WrittenBranch.IsDrafted (b : WrittenBranch) (keyword : String) : Prop where
  keyword : b.keyword.Spells keyword
  condition : Written 0 b.condition b.conditionTokens
  colon : ∀ t ∈ b.suite.colon?, t.Spells ":"
  statements : ∀ x ∈ b.suite.statements, x.stmt.Written x.first x.below
  lines : ∀ ts ∈ b.lines, Drafted ts

theorem exists_branch (keyword : String) (hk : keyword ∈ statementWords) {condition : Expr}
    (h : condition.Writable) {body : List Stmt} (hbody : ∀ s ∈ body, s.HasWriting) :
    ∃ b : WrittenBranch, b.branch = (condition.placed .value, body) ∧ b.IsDrafted keyword := by
  obtain ⟨t, ht, htdraft⟩ := exists_keyword _ hk
  obtain ⟨ts, hts, hdraft⟩ := h.hasWriting
  obtain ⟨xs, rfl, hxs⟩ := exists_body hbody
  refine ⟨⟨t, condition, ts, .below none xs⟩, rfl, ht, hts, (fun _ h => by cases h),
    (fun x hx => (hxs x hx).1), ?_⟩
  exact List.forall_mem_cons.mpr ⟨.cons htdraft (hdraft.append .nil),
    drafted_lines fun x hx => (hxs x hx).2⟩

/-- What is done if no condition holds. -/
structure WrittenElse.IsDrafted (b : WrittenElse) : Prop where
  keyword : b.keyword.Spells "else"
  colon : ∀ t ∈ b.suite.colon?, t.Spells ":"
  statements : ∀ x ∈ b.suite.statements, x.stmt.Written x.first x.below
  lines : ∀ ts ∈ b.lines, Drafted ts

theorem exists_else {otherwise : Option (List Stmt)}
    (h : ∀ body ∈ otherwise, ∀ s ∈ body, s.HasWriting) :
    ∃ b? : Option WrittenElse, b?.map (·.suite.body) = otherwise ∧ ∀ b ∈ b?, b.IsDrafted := by
  cases otherwise with
  | none => exact ⟨none, rfl, fun _ h => by cases h⟩
  | some body =>
    obtain ⟨t, ht, htdraft⟩ := exists_keyword "else" (by decide)
    obtain ⟨xs, rfl, hxs⟩ := exists_body (h body rfl)
    refine ⟨some ⟨t, .below none xs⟩, rfl, fun b hb => ?_⟩
    cases hb
    exact ⟨ht, (fun _ h => by cases h), (fun x hx => (hxs x hx).1),
      List.forall_mem_cons.mpr ⟨.singleton htdraft, drafted_lines fun x hx => (hxs x hx).2⟩⟩

/-! ## Statements -/

theorem HasWriting.expression {e : Expr} (h : HasWriting e) :
    (Stmt.expression (e.placed .value)).HasWriting := by
  obtain ⟨ts, hts, hdraft⟩ := h
  exact Stmt.WrittenOnLine.hasWriting (.expression hts) hdraft

theorem hasWriting_print {es : List Expr} (h : ∀ e ∈ es, e.Writable) :
    (Stmt.print (Expr.placedAll es)).HasWriting := by
  obtain ⟨t, ht, htdraft⟩ := exists_keyword "print" (by decide)
  obtain ⟨items, rfl, hwritten⟩ := exists_items fun e he => (h e he).hasWriting
  obtain ⟨ts, hts, hdraft⟩ := exists_joined "," rfl (by decide)
    (List.forall_mem_map.mpr fun x hx => (hwritten x hx).2)
  exact Stmt.WrittenOnLine.hasWriting (.print ht (fun x hx => (hwritten x hx).1) hts)
    (.cons htdraft hdraft)

theorem hasWriting_jump (kind : Jump) : (Stmt.jump kind none).HasWriting := by
  obtain ⟨t, ht, htdraft⟩ := exists_keyword kind.keyword (by cases kind <;> decide)
  exact Stmt.WrittenOnLine.hasWriting (.jump ht) (.singleton htdraft)

theorem hasWriting_jumpWith {kind : Jump} (hkind : kind ≠ .continueLoop) {e : Expr}
    (h : e.Writable) : (Stmt.jump kind (some (e.placed .value))).HasWriting := by
  obtain ⟨t, ht, htdraft⟩ := exists_keyword kind.keyword (by cases kind <;> decide)
  obtain ⟨ts, hts, hdraft⟩ := h.hasWriting
  exact Stmt.WrittenOnLine.hasWriting (.jumpWith hkind ht hts) (.cons htdraft hdraft)

/-- The target stands in parentheses, lest it be looser than a member. -/
theorem hasWriting_assign {target value : Expr} {indices : List Expr} {lookup : Lookup}
    (htarget : target.IsBindable) (ht : target.Writable) (hindices : ∀ e ∈ indices, e.Writable)
    (hlookup : lookup = .binding ∨ lookup = .rebinding) (hv : value.Writable) :
    (Stmt.assign (target.placed lookup) (Expr.placedAll indices)
      (value.placed .value)).HasWriting := by
  obtain ⟨ts, hts, htsdraft, -⟩ := ht.hasWriting.enclosed Operator.member.level
  obtain ⟨xs, rfl, hxs⟩ := exists_indices hindices
  obtain ⟨t, hop, htdraft⟩ := exists_assignmentOperator hlookup
  obtain ⟨vs, hvs, hvsdraft⟩ := hv.hasWriting
  refine Stmt.WrittenOnLine.hasWriting (.assign htarget hts (fun x hx => (hxs x hx).1)
    (fun x hx => (hxs x hx).2.1) hop hvs) (htsdraft.append (Drafted.append ?_ ?_))
  · intro u hu
    obtain ⟨x, hx, hmem⟩ := List.mem_flatMap.mp hu
    exact (hxs x hx).2.2 u hmem
  · exact .cons htdraft hvsdraft

theorem hasWriting_choice {b : Branch} {branches : List Branch} {otherwise : Option (List Stmt)}
    (hconditions : ∀ x ∈ b :: branches, x.1.Writable)
    (hbodies : ∀ x ∈ b :: branches, ∀ s ∈ x.2, s.HasWriting)
    (hbody : ∀ body ∈ otherwise, ∀ s ∈ body, s.HasWriting) :
    (Stmt.choice ((b :: branches).map fun x => (x.1.placed .value, x.2)) otherwise).HasWriting := by
  obtain ⟨y, hy, hif⟩ := exists_branch "if" (by decide)
    (hconditions b List.mem_cons_self) (hbodies b List.mem_cons_self)
  obtain ⟨ys, hys, helif⟩ : ∃ ys : List WrittenBranch, ys.map (·.branch)
      = branches.map (fun x => (x.1.placed .value, x.2)) ∧ ∀ y ∈ ys, y.IsDrafted "elif" := by
    refine exists_map_eq (List.forall_mem_map.mpr fun x hx => ?_)
    exact exists_branch "elif" (by decide) (hconditions x (List.mem_cons_of_mem _ hx))
      (hbodies x (List.mem_cons_of_mem _ hx))
  obtain ⟨z?, rfl, helse⟩ := exists_else hbody
  obtain ⟨last, hlast, hlastdraft⟩ := exists_keyword "end" (by decide)
  rw [List.map_cons, ← hy, ← hys, ← List.map_cons]
  refine ⟨_, _, .choice hif.keyword (fun x hx => (helif x hx).keyword)
    (fun x hx => (helse x hx).keyword)
    (List.forall_mem_cons.mpr ⟨hif.condition, fun x hx => (helif x hx).condition⟩)
    (List.forall_mem_cons.mpr ⟨hif.colon, fun x hx => (helif x hx).colon⟩)
    (fun x hx => (helse x hx).colon)
    (List.forall_mem_cons.mpr ⟨hif.statements, fun x hx => (helif x hx).statements⟩)
    (fun x hx => (helse x hx).statements) hlast, ?_⟩
  obtain ⟨hfirst, hlines⟩ := List.forall_mem_cons.mp hif.lines
  refine List.forall_mem_cons.mpr ⟨hfirst, List.forall_mem_append.mpr
    ⟨List.forall_mem_append.mpr ⟨List.forall_mem_append.mpr ⟨hlines, ?_⟩, ?_⟩, ?_⟩⟩
  · intro ts hts
    obtain ⟨x, hx, hmem⟩ := List.mem_flatMap.mp hts
    exact (helif x hx).lines ts hmem
  · intro ts hts
    obtain ⟨x, hx, hmem⟩ := List.mem_flatMap.mp hts
    exact (helse x (Option.mem_toList.mp hx)).lines ts hmem
  · exact List.forall_mem_singleton.mpr (.singleton hlastdraft)

theorem exists_whileLoop {condition : Expr} (h : condition.Writable) :
    ∃ header, Opening.Written (.whileLoop (condition.placed .value)) header ∧ Drafted header := by
  obtain ⟨t, ht, htdraft⟩ := exists_keyword "while" (by decide)
  obtain ⟨ts, hts, hdraft⟩ := h.hasWriting
  exact ⟨_, .whileLoop ht hts, .cons htdraft hdraft⟩

theorem exists_forLoop {iterator iterable : Expr} (htarget : iterator.IsBindable)
    (hi : iterator.Writable) (h : iterable.Writable) :
    ∃ header, Opening.Written (.forLoop (iterator.placed .binding) (iterable.placed .value)) header
      ∧ Drafted header := by
  obtain ⟨t, ht, htdraft⟩ := exists_keyword "for" (by decide)
  obtain ⟨is, his, hisdraft, -⟩ := hi.hasWriting.enclosed Operator.member.level
  obtain ⟨within, hwithin, hwithindraft⟩ := exists_spells "in" .keyword rfl (by decide)
  obtain ⟨ts, hts, hdraft⟩ := h.hasWriting
  exact ⟨_, .forLoop ht htarget his hwithin hts,
    .cons htdraft (hisdraft.append (.cons hwithindraft hdraft))⟩

theorem exists_function {name : String} {parameters : List Parameter} (hname : IsIdentifier name)
    (hnames : ∀ p ∈ parameters, IsIdentifier p.name)
    (hdefaults : ∀ p ∈ parameters, ∀ e ∈ p.default?, e.Writable) :
    ∃ header, Drafted header ∧ Opening.Written
      (.function (.name name .definition) (parameters.map (·.placed))) header := by
  obtain ⟨t, ht, htdraft⟩ := exists_keyword "def" (by decide)
  obtain ⟨xs, hxs, hwritten⟩ := exists_parameters hnames hdefaults
  obtain ⟨o, c, ts, hb, hts, hdraft⟩ := exists_enclosed .round "," (by decide)
    (List.forall_mem_map.mpr fun x hx => (hwritten x hx).2)
  rw [← hxs]
  have hword : Token.IsIdentifier ⟨.identifier, name, 1⟩ := ⟨hname, rfl⟩
  exact ⟨_, .cons htdraft (.cons hname.isDraft hdraft),
    .function ht hword hb (fun x hx => (hwritten x hx).1) hts⟩

/-- **Every statement of the fragment can be written.** -/
theorem Stmt.Writable.hasWriting {s : Stmt} (h : s.Writable) : s.HasWriting := by
  induction h with
  | expression h => exact h.hasWriting.expression
  | print h => exact hasWriting_print h
  | choice hconditions _ _ ihbodies ihbody => exact hasWriting_choice hconditions ihbodies ihbody
  | whileLoop h _ ih =>
    obtain ⟨header, ho, hdraft⟩ := exists_whileLoop h
    exact ho.hasWriting hdraft ih
  | forLoop htarget hi h _ ih =>
    obtain ⟨header, ho, hdraft⟩ := exists_forLoop htarget hi h
    exact ho.hasWriting hdraft ih
  | jump kind => exact hasWriting_jump kind
  | jumpWith hkind h => exact hasWriting_jumpWith hkind h
  | assign htarget ht hindices hlookup hv =>
    exact hasWriting_assign htarget ht hindices hlookup hv
  | function hname hnames hdefaults _ ih =>
    obtain ⟨header, hdraft, ho⟩ := exists_function hname hnames hdefaults
    exact ho.hasWriting hdraft ih

/-! ## Scripts -/

/-- **Every script of the fragment has a source.** -/
theorem Script.exists_source {c : Script} (h : ∀ s ∈ c, s.Writable) :
    ∃ source, c.IsWrittenAs source := by
  obtain ⟨xs, rfl, hxs⟩ := exists_body fun s hs => (h s hs).hasWriting
  have hwritten := Script.Written.intro fun x hx => (hxs x hx).1
  have hdraft := drafted_lines fun x hx => (hxs x hx).2
  obtain ⟨cs, hcs⟩ := exists_laid fun ts hts => ⟨hdraft ts hts, hwritten.areLines ts hts⟩
  exact ⟨String.ofList cs, _, hwritten, by rwa [String.toList_ofList]⟩

/-- **Scripts read back.**  A script of the fragment has a source; and from whatever source writes
it, with bodies below their headers or beside them, it is read back, in a session that may have read
others before. -/
theorem script_round_trip (c : Script) (h : ∀ s ∈ c, s.Writable) :
    (∃ source, c.IsWrittenAs source) ∧ ∀ (source : String) (s : Session),
      c.IsWrittenAs source → (s.read source).1 = .ok c :=
  ⟨Script.exists_source h, fun _ s hsource => hsource.read s⟩

/-- A loop beside the condition of a choice, with its own body beside it. -/
theorem script_round_trip_nested :
    (∀ s ∈ ([.choice [(.name "a" .value, [.whileLoop (.name "b" .value) [.jump .breakLoop none]])]
      none] : Script), s.Writable)
    ∧ (Session.new.read "if a: while b: break\nend").1 = .ok [.choice [(.name "a" .value,
        [.whileLoop (.name "b" .value) [.jump .breakLoop none]])] none] := by
  have hname (s : String) (h : IsIdentifier s) : Expr.Writable (.name s .none) := .name h
  have hloop := Stmt.Writable.whileLoop (hname "b" (by decide))
    (List.forall_mem_singleton.mpr (.jump .breakLoop))
  have hconditions : ∀ x ∈ [((.name "a" .none,
      [.whileLoop (.name "b" .value) [.jump .breakLoop none]]) : Branch)], x.1.Writable :=
    List.forall_mem_singleton.mpr (hname "a" (by decide))
  have hbody : ∀ body ∈ (none : Option (List Stmt)), ∀ s ∈ body, s.Writable := fun _ h => by cases h
  have hchoice := Stmt.Writable.choice hconditions
    (List.forall_mem_singleton.mpr (List.forall_mem_singleton.mpr hloop)) hbody
  have hw := List.forall_mem_singleton.mpr hchoice
  -- what is written, a statement beside each header
  have hcolon : Token.Spells ":" ⟨.operator, ":", 1⟩ := ⟨rfl, rfl⟩
  have hkeyword (s : String) (h : Token.IsLexeme ⟨.keyword, s, 1⟩) :
      Token.Spells s ⟨.keyword, s, 1⟩ := ⟨rfl, h⟩
  have hword (s : String) (h : Token.IsLexeme ⟨.identifier, s, 1⟩) :
      Written 0 (.name s .none) [⟨.identifier, s, 1⟩] := .name (t := ⟨.identifier, s, 1⟩) ⟨h, rfl⟩
  have hjump : Stmt.Written (.jump .breakLoop none) [⟨.keyword, "break", 1⟩] [] :=
    .onLine (.jump (hkeyword "break" rfl))
  have hinner := Stmt.Written.inline (x := ⟨_, _, _⟩)
    (.whileLoop (hkeyword "while" rfl) (hword "b" rfl)) hcolon hjump
  have houter := @Stmt.Written.choice
    ⟨⟨.keyword, "if", 1⟩, _, _, .beside ⟨.operator, ":", 1⟩ ⟨_, _, _⟩⟩ [] none ⟨.keyword, "end", 2⟩
    (hkeyword "if" rfl) (fun _ h => by cases h) (fun _ h => by cases h)
    (List.forall_mem_singleton.mpr (hword "a" rfl))
    (List.forall_mem_singleton.mpr fun _ h => by cases h; exact hcolon) (fun _ h => by cases h)
    (List.forall_mem_singleton.mpr (List.forall_mem_singleton.mpr hinner)) (fun _ h => by cases h)
    ⟨rfl, rfl⟩
  have hwritten := @Script.Written.intro [⟨_, _, _⟩] (List.forall_mem_singleton.mpr houter)
  refine ⟨hw, (script_round_trip _ hw).2 _ _ ⟨_, hwritten, ?_⟩⟩
  -- where it is written: a blank behind most tokens
  have head {p : Char → Prop} {c : Char} {cs : List Char} (h : p c) : ∀ d ∈ (c :: cs).head?, p d :=
    fun d hd => by cases hd; exact h
  refine .first (t := ⟨.keyword, "if", 1⟩) rfl (endsBefore_blank (by rfl) _) (.blank rfl ?_)
  refine .token (t := ⟨.identifier, "a", 1⟩) rfl (head rfl) ?_
  refine .token (t := ⟨.operator, ":", 1⟩) rfl (endsBefore_blank (by rfl) _) (.blank rfl ?_)
  refine .token (t := ⟨.keyword, "while", 1⟩) rfl (endsBefore_blank (by rfl) _) (.blank rfl ?_)
  refine .token (t := ⟨.identifier, "b", 1⟩) rfl (head rfl) ?_
  refine .token (t := ⟨.operator, ":", 1⟩) rfl (endsBefore_blank (by rfl) _) (.blank rfl ?_)
  refine .token (t := ⟨.keyword, "break", 1⟩) rfl (head rfl) (.separator rfl ?_)
  exact @Laid.first ⟨.keyword, "end", 2⟩ _ _ [] rfl (fun _ h => by cases h) .done

end ScriptReader

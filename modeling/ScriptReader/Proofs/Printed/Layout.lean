import ScriptReader.Proofs.Printed.Statement

/-!
# Proofs/Printed/Layout — a script is printed as the lines of its passages

Each line of a statement is printed as the text of its heading, and a body as the lines of its
passages, one level deeper (`Stmt.IsLegible.isPrintedAsLines`).  So scripts that are printed alike
have the same passages, and are shown alike (`Script.shown_eq_of_isLegible`).
-/

namespace ScriptReader

theorem toList_indented (depth : Nat) {line : String} {h : Heading} (hline : line.toList = h.text) :
    (indented depth line).toList = PlacedLine.text (depth, h) := by
  have hbreak : "\n".toList = ['\n'] := rfl
  rw [indented, String.toList_append, String.toList_append, String.toList_ofList, hline, hbreak,
    List.append_assoc]
  rfl

theorem toList_ending (depth : Nat) :
    (indented depth "end").toList = PlacedLine.text (depth, .ending) :=
  toList_indented depth (by rw [Heading.ending, Heading.text, Form.text])

/-- The text of lines one after another. -/
def linesText (ls : List PlacedLine) : List Char := ls.flatMap PlacedLine.text

theorem linesText_cons (l : PlacedLine) (ls : List PlacedLine) :
    linesText (l :: ls) = l.text ++ linesText ls := List.flatMap_cons

theorem linesText_singleton (l : PlacedLine) : linesText [l] = l.text := by
  rw [linesText_cons, linesText, List.flatMap_nil, List.append_nil]

theorem linesText_append (ls ls' : List PlacedLine) :
    linesText (ls ++ ls') = linesText ls ++ linesText ls' := List.flatMap_append

/-- The statement is printed as the lines of its passage. -/
def Stmt.IsPrintedAsLines (s : Stmt) : Prop :=
  ∀ depth, (s.printed depth).toList = linesText (s.passage.lines depth)

theorem toList_printedBody {body : List Stmt} (h : ∀ s ∈ body, s.IsPrintedAsLines) (depth : Nat) :
    (printedBody depth body).toList
      = linesText ((body.map Stmt.passage).flatMap (Passage.lines depth)) := by
  induction body with
  | nil => rw [printedBody]; rfl
  | cons s body ih =>
    obtain ⟨hs, hbody⟩ := List.forall_mem_cons.mp h
    rw [printedBody, String.toList_append, hs depth, ih hbody, List.map_cons, List.flatMap_cons,
      linesText_append]

/-- A section is printed as its line and its body. -/
theorem toList_section {depth : Nat} {line : String} {h : Heading} {body : List Stmt}
    (hline : line.toList = h.text) (hbody : ∀ s ∈ body, s.IsPrintedAsLines) :
    (indented depth line ++ printedBody (depth + 1) body).toList
      = linesText (Passage.linesOfSection depth (h, body.map Stmt.passage)) := by
  rw [String.toList_append, toList_indented depth hline, toList_printedBody hbody,
    Passage.linesOfSection, linesText_cons]

/-- A block of one section. -/
theorem toList_block {depth : Nat} {line : String} {h : Heading} {body : List Stmt}
    (hline : line.toList = h.text) (hbody : ∀ s ∈ body, s.IsPrintedAsLines) :
    (indented depth line ++ printedBody (depth + 1) body ++ indented depth "end").toList
      = linesText ((Passage.block [(h, body.map Stmt.passage)]).lines depth) := by
  rw [String.toList_append, toList_section hline hbody, toList_ending, Passage.lines_block,
    List.flatMap_singleton, linesText_append, linesText_singleton]

theorem toList_colon : ":".toList = [':'] := rfl

/-- The line of a branch. -/
theorem toList_branchLine (keyword : String) {condition : Expr} (h : condition.IsLegible) :
    (keyword ++ " " ++ condition.printed ++ ":").toList
      = (Heading.opener keyword [condition.form]).text := by
  simp only [String.toList_append, toList_blank, toList_colon, h.toList_printed, Heading.text,
    Form.textEach, List.append_assoc, List.cons_append, List.nil_append]

theorem toList_printedBranches {branches : List Branch}
    (hconditions : ∀ x ∈ branches, x.1.IsLegible)
    (hbodies : ∀ x ∈ branches, ∀ s ∈ x.2, s.IsPrintedAsLines) (depth : Nat) (keyword : String) :
    (printedBranches depth keyword branches).toList
      = linesText ((branchSections keyword branches).flatMap (Passage.linesOfSection depth)) := by
  induction branches generalizing keyword with
  | nil => rw [printedBranches, branchSections]; rfl
  | cons b branches ih =>
    obtain ⟨condition, body⟩ := b
    obtain ⟨hcondition, hconditions⟩ := List.forall_mem_cons.mp hconditions
    obtain ⟨hbody, hbodies⟩ := List.forall_mem_cons.mp hbodies
    rw [printedBranches, branchSections, bodyPassages_eq_map, String.toList_append,
      toList_section (toList_branchLine keyword hcondition) hbody, ih hconditions hbodies,
      List.flatMap_cons, linesText_append]

/-- The first line of a loop over something. -/
theorem toList_loopLine {iterator iterable : Expr} (hiterator : iterator.IsLegible)
    (hiterable : iterable.IsLegible) :
    ("for " ++ iterator.printed ++ " in " ++ iterable.printed ++ ":").toList
      = (Heading.opener "for" [iterator.form, .word "in", iterable.form]).text := by
  have hfor : "for ".toList = "for".toList ++ [' '] := rfl
  have hin : " in ".toList = ' ' :: ("in".toList ++ [' ']) := rfl
  simp only [String.toList_append, hfor, hin, toList_colon, hiterator.toList_printed,
    hiterable.toList_printed, Heading.text, Form.textEach, Form.text, List.append_assoc,
    List.cons_append, List.nil_append]

theorem toList_printedJump (kind : Jump) {value : Option Expr} (h : ∀ e ∈ value, e.IsLegible) :
    (printedJump kind value).toList
      = (Heading.plain (.group (.jump kind) (value.toList.map Expr.form))).text := by
  cases value with
  | none =>
    simp only [printedJump, String.toList_append, toList_opener, toList_closer, Heading.text,
      Form.text, Head.text, Option.toList_none, List.map_nil, Form.textEach, List.cons_append,
      List.nil_append]
  | some e =>
    simp only [printedJump, String.toList_append, toList_opener, toList_closer, toList_blank,
      (h e rfl).toList_printed, Heading.text, Form.text, Head.text, Option.toList_some,
      List.map_singleton, Form.textEach, List.append_assoc, List.cons_append, List.nil_append]

/-- The line of an assignment. -/
theorem toList_assignment {target value : Expr} {indices : List Expr} (symbol : String)
    (htarget : target.IsLegible) (hindices : ∀ e ∈ indices, e.IsLegible)
    (hvalue : value.IsLegible) :
    ("(" ++ symbol ++ " " ++ printedTarget target indices ++ " " ++ value.printed ++ ")").toList
      = (Heading.assignment symbol target.form (indices.map Expr.form) value.form).text := by
  have hindex : (String.join (indices.map fun e => "[" ++ e.printed ++ "]")).toList
      = (indices.map Expr.form).flatMap Heading.indexText := by
    have hopener : "[".toList = ['['] := rfl
    have hcloser : "]".toList = [']'] := rfl
    rw [String.toList_join, List.flatMap_map, List.flatMap_map]
    refine List.flatMap_congr fun e he => ?_
    rw [String.toList_append, String.toList_append, hopener, hcloser,
      (hindices e he).toList_printed]
    rfl
  simp only [printedTarget, String.toList_append, toList_opener, toList_closer, toList_blank,
    htarget.toList_printed, hvalue.toList_printed, hindex, Heading.text, List.append_assoc,
    List.cons_append, List.nil_append]

theorem Parameter.toList_printed {p : Parameter} (h : ∀ e ∈ p.default?, e.IsLegible) :
    p.printed.toList = Heading.parameterText p.form := by
  obtain ⟨name, default?⟩ := p
  cases default? with
  | none => simp [printed, Heading.parameterText, form]
  | some e =>
    have hequals : "=".toList = ['='] := rfl
    simp only [printed, form, Heading.parameterText, String.toList_append, hequals,
      (h e rfl).toList_printed, Option.map_some, List.append_assoc, List.cons_append,
      List.nil_append]

/-- The first line of a function. -/
theorem toList_definition {name : Expr} {parameters : List Parameter} (hname : name.IsLegible)
    (hdefaults : ∀ p ∈ parameters, ∀ e ∈ p.default?, e.IsLegible) :
    ("def " ++ name.printed ++ "(" ++ ", ".intercalate (parameters.map Parameter.printed) ++
        "):").toList
      = (Heading.definition name.form (parameters.map Parameter.form)).text := by
  have hdef : "def ".toList = "def".toList ++ [' '] := rfl
  have hend : "):".toList = [')', ':'] := rfl
  have hcomma : ", ".toList = [',', ' '] := rfl
  have hparameters : (parameters.map Parameter.printed).map String.toList
      = (parameters.map Parameter.form).map Heading.parameterText := by
    rw [List.map_map, List.map_map]
    exact List.map_congr_left fun p hp => Parameter.toList_printed (hdefaults p hp)
  rw [Heading.text, row_eq_intercalate]
  simp only [String.toList_append, hdef, hend, toList_opener, String.toList_intercalate, hcomma,
    hparameters, hname.toList_printed, List.append_assoc, List.cons_append, List.nil_append]

/-- **A legible statement is printed as the lines of its passage.** -/
theorem Stmt.IsLegible.isPrintedAsLines {s : Stmt} (h : s.IsLegible) : s.IsPrintedAsLines := by
  have line {line : String} {h : Heading} (hline : line.toList = h.text) (depth : Nat) :
      (indented depth line).toList = linesText ((Passage.line h).lines depth) := by
    rw [toList_indented depth hline, Passage.lines, linesText_singleton]
  intro depth
  induction h generalizing depth with
  | expression he =>
    rw [printed]
    exact line he.toList_printed depth
  | print hes =>
    rw [printed, passage, formEach_eq_map]
    exact line (toList_group .print (toList_printedEach fun e he => (hes e he).toList_printed))
      depth
  | @choice b branches otherwise hconditions _ _ ihbodies ihotherwise =>
    rw [passage_choice, Passage.lines_block, List.flatMap_append, linesText_append,
      linesText_append, ← toList_printedBranches hconditions ihbodies]
    cases otherwise with
    | none =>
      rw [printed, String.toList_append, toList_ending, otherwiseSections, List.flatMap_nil,
        linesText_singleton, linesText, List.flatMap_nil, List.append_nil]
    | some body =>
      have helse : "else:".toList = (Heading.opener "else" []).text := rfl
      have hsection := @toList_section depth _ _ _ helse (ihotherwise body rfl)
      rw [printed, @String.append_assoc (printedBranches ..), String.toList_append,
        String.toList_append, hsection, toList_ending, otherwiseSections, List.flatMap_singleton,
        linesText_singleton]
  | whileLoop hcondition _ ih =>
    rw [printed, passage, bodyPassages_eq_map]
    exact toList_block (toList_branchLine "while" hcondition) ih
  | forLoop hiterator hiterable _ ih =>
    rw [printed, passage, bodyPassages_eq_map]
    exact toList_block (toList_loopLine hiterator hiterable) ih
  | @jump kind value hvalue =>
    rw [printed, passage]
    exact line (toList_printedJump kind hvalue) depth
  | assign htarget hindices hvalue =>
    rw [printed, passage, formEach_eq_map]
    exact line (toList_assignment _ htarget hindices hvalue) depth
  | function hname _ hdefaults _ ih =>
    rw [printed, passage, bodyPassages_eq_map]
    exact toList_block (toList_definition hname hdefaults) ih

/-- **Legible scripts that are printed alike are shown alike.** -/
theorem Script.shown_eq_of_isLegible {s s' : Script} (h : ∀ x ∈ s, x.IsLegible)
    (h' : ∀ x ∈ s', x.IsLegible) (heq : s.printed = s'.printed) : s.shown = s'.shown := by
  have hwritten {s : Script} (h : ∀ x ∈ s, x.IsLegible) :
      ∀ p ∈ s.map Stmt.passage, p.IsWritten :=
    List.forall_mem_map.mpr fun x hx => (h x hx).isWritten_passage
  have hlines {s : Script} (h : ∀ x ∈ s, x.IsLegible) :
      s.printed.toList = linesText ((s.map Stmt.passage).flatMap (Passage.lines 0)) :=
    toList_printedBody (fun x hx => (h x hx).isPrintedAsLines) 0
  have htext := congrArg String.toList heq
  rw [hlines h, hlines h'] at htext
  have hpassages := Passage.eq_of_text_eq (hwritten h) (hwritten h') htext
  rw [Script.shown, Script.shown, shownBody_eq_map, shownBody_eq_map]
  exact map_eq_of_map_eq (fun x hx x' hx' => (h x hx).shown_eq (h' x' hx')) hpassages

end ScriptReader

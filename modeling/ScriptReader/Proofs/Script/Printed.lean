import ScriptReader.Proofs.Expr.Legible
import ScriptReader.Proofs.Printed.Layout
import ScriptReader.Proofs.Script.Built
import ScriptReader.Proofs.Script.RoundTrip

/-!
# Proofs/Script/Printed — scripts that are printed alike are alike, as far as they are shown

Every line makes a legible statement or an opening that a legible body completes
(`Phrase.isLegible_readLine`), so a script that is read is legible (`Script.isLegible_of_read`), and
scripts that are printed alike are shown alike (`Script.printed_identifies`).  What is shown leaves
out how names are looked up, an empty dictionary of named arguments, and whether an infinite number
is the name `inf`; scripts that differ in these are printed alike (`Script.printed_alike`).
-/

namespace ScriptReader

variable {Part : Phrase → Prop}

/-! ## Legible headers -/

/-- What the opening opens is legible if its body is. -/
inductive Opening.IsLegible : Opening → Prop
  | whileLoop {condition : Expr} (hcondition : condition.IsLegible) :
      IsLegible (.whileLoop condition)
  | forLoop {iterator iterable : Expr} (hiterator : iterator.IsLegible)
      (hiterable : iterable.IsLegible) : IsLegible (.forLoop iterator iterable)
  | function {name : Expr} {parameters : List Parameter} (hname : name.IsLegible)
      (hnames : ∀ p ∈ parameters, IsIdentifier p.name)
      (hdefaults : ∀ p ∈ parameters, ∀ e ∈ p.default?, e.IsLegible) :
      IsLegible (.function name parameters)

theorem Opening.IsLegible.close {o : Opening} {body : List Stmt} (h : o.IsLegible)
    (hbody : ∀ s ∈ body, s.IsLegible) : (o.close body).IsLegible := by
  cases h with
  | whileLoop hcondition => exact .whileLoop hcondition hbody
  | forLoop hiterator hiterable => exact .forLoop hiterator hiterable hbody
  | function hname hnames hdefaults => exact .function hname hnames hdefaults hbody

/-! ## Legible lines -/

/-- A statement whose expressions are legible is. -/
theorem Stmt.Each.isLegible {s : Stmt} (h : s.Each fun _ => Expr.IsLegible) : s.IsLegible := by
  induction h with
  | expression h => exact .expression h
  | print h => exact .print h
  | choice hconditions _ _ ihbodies ihotherwise =>
    exact .choice hconditions ihbodies ihotherwise
  | whileLoop hcondition _ ih => exact .whileLoop hcondition ih
  | forLoop _ hiterator hiterable _ ih => exact .forLoop hiterator hiterable ih
  | jump _ h => exact .jump h
  | assign _ _ htarget hindices hvalue => exact .assign htarget hindices hvalue
  | function hname hnames hdefaults _ ih => exact .function hname hnames hdefaults ih

theorem Opening.Each.isLegible {o : Opening} (h : o.Each fun _ => Expr.IsLegible) :
    o.IsLegible := by
  cases h with
  | whileLoop hcondition => exact .whileLoop hcondition
  | forLoop _ hiterator hiterable => exact .forLoop hiterator hiterable
  | function hname hnames hdefaults => exact .function hname hnames hdefaults

/-- **Every line that is read is legible.** -/
theorem Phrase.isLegible_readLine {p : Phrase} (hpart : AreParts Part) (hp : Part p) :
    Yields (Line.Has Expr.IsLegible Opening.IsLegible Stmt.IsLegible) (Line.read p) := fun l h => by
  cases each_readLine hpart (Expr.isLegible_read hpart) hp l h with
  | complete hs => exact .complete hs.isLegible
  | opening ho body => exact .opening ho.isLegible body
  | choice hc body => exact .choice hc body

/-! ## Scripts -/

/-- Legible statements are built from legible lines. -/
theorem built_isLegible (hpart : Phrase.AreParts Part) :
    Built Part Expr.IsLegible Opening.IsLegible Stmt.IsLegible where
  parts := hpart
  line hp := Phrase.isLegible_readLine hpart hp
  condition hp := Phrase.each_readCondition hpart (Expr.isLegible_read hpart) hp
  close ho hbody := ho.close hbody
  choice hbranches hotherwise :=
    .choice (fun x hx => (hbranches x hx).1) (fun x hx => (hbranches x hx).2) hotherwise

/-- **Every script that is read is legible.** -/
theorem Script.isLegible_of_read {source : String} {script : Script}
    (h : Script.read source = .ok script) : ∀ s ∈ script, s.IsLegible :=
  (built_isLegible (Source.areParts_hasPhrase (.ofString source))).read script h

/-- **The printed form of a script identifies it**, as far as the script is shown. -/
theorem Script.printed_identifies {source source' : String} {script script' : Script}
    (h : Script.read source = .ok script) (h' : Script.read source' = .ok script')
    (heq : script.printed = script'.printed) : script.shown = script'.shown :=
  shown_eq_of_isLegible (isLegible_of_read h) (isLegible_of_read h') heq

/-- The body of a branch stands on the line of its condition, or on lines of its own; a named
argument is shown as a dictionary, which can also be given in its place. -/
theorem Script.printed_identifies_branch :
    let named : Expr := .dictionary [(.text "x", .name "y" .value)]
    let script (arguments : List Expr) : Script :=
      [.choice [(.name "a" .value, [.expression (.call (.name "f" .reference) arguments)])] none]
    Script.read "if a: f(x=y)\nend" = .ok (script [named])
      ∧ Script.read "if a:\n f(\x7b'x': y\x7d)\nend" = .ok (script [.dictionary [], named])
      ∧ (script [named]).printed = (script [.dictionary [], named]).printed
      ∧ (script [named]).shown = (script [.dictionary [], named]).shown := by
  intro named script
  have hread : Script.read "if a: f(x=y)\nend" = .ok (script [named]) := by
    rw [Script.read_eq]
    with_unfolding_all rfl
  have hread' : Script.read "if a:\n f(\x7b'x': y\x7d)\nend"
      = .ok (script [.dictionary [], named]) := by
    rw [Script.read_eq]
    with_unfolding_all rfl
  have hprinted : (script [named]).printed = (script [.dictionary [], named]).printed := by
    with_unfolding_all rfl
  exact ⟨hread, hread', hprinted, Script.printed_identifies hread hread' hprinted⟩

/-! ## What is not shown -/

/-- A numeral on its own is read as its number. -/
theorem Script.read_numeral {text : String} {x : Binary64}
    (ht : Token.IsLexeme ⟨.number, text, 1⟩) (hx : Literal.numberValue? text = some x) :
    Script.read text = .ok [.expression (.constant (.number x))] := by
  let t : Token := ⟨.number, text, 1⟩
  let line : WrittenStmt := ⟨.expression (.constant (.number x)), [t], []⟩
  have hwritten : ScriptReader.Written 0 (.constant (.number x)) [t] := .number ht rfl hx
  have hline : ∀ y ∈ [line], y.stmt.Written y.first y.below :=
    List.forall_mem_singleton.mpr (.onLine (.expression hwritten))
  have hplain : t.IsPlain := ht.isPlain nofun
  have hlaid : Laid 0 false t.line [] [[t]] (t.text.toList ++ []) := by
    refine .first ht (ht.endsBefore nofun) ?_
    rw [depthAfter_of_isPlain hplain]
    exact .done
  rw [List.append_nil] at hlaid
  exact Script.IsWrittenAs.read ⟨_, .intro hline, hlaid⟩ .new

/-- **Scripts that differ can be printed alike.**  An empty dictionary of named arguments leaves no
trace, and neither does it whether `inf` is a name or a number that has overflowed. -/
theorem Script.printed_alike :
    (∃ e e' : Expr, Script.read "f(x=y)" = .ok [.expression e]
        ∧ Script.read "f(\x7b'x': y\x7d)" = .ok [.expression e']
        ∧ Script.printed [.expression e] = Script.printed [.expression e']
        ∧ ∀ lookup, e.placed lookup ≠ e'.placed lookup)
      ∧ ∃ e e' : Expr, Script.read "inf" = .ok [.expression e]
        ∧ Script.read (String.ofList ('1' :: List.replicate 309 '0')) = .ok [.expression e']
        ∧ Script.printed [.expression e] = Script.printed [.expression e']
        ∧ ∀ lookup, e.placed lookup ≠ e'.placed lookup := by
  constructor
  · let named : Expr := .dictionary [(.text "x", .name "y" .value)]
    refine ⟨.call (.name "f" .reference) [named],
      .call (.name "f" .reference) [.dictionary [], named],
      by rw [Script.read_eq]; with_unfolding_all rfl,
      by rw [Script.read_eq]; with_unfolding_all rfl, by with_unfolding_all rfl, fun lookup h => ?_⟩
    have hlength := congrArg List.length (Expr.call.inj h).2
    simp [Expr.placedAll] at hlength
  · let infinite : Expr := .constant (.number (.ofMagnitude Binary64.infinity))
    have ht : Token.IsLexeme ⟨.number, String.ofList ('1' :: List.replicate 309 '0'), 1⟩ := by
      rw [Token.IsLexeme, String.toList_ofList]
      decide +kernel
    have hx : Literal.numberValue? (String.ofList ('1' :: List.replicate 309 '0'))
        = some (.ofMagnitude Binary64.infinity) := by
      rw [Literal.numberValue?, String.toList_ofList]
      decide +kernel
    exact ⟨.name "inf" .value, infinite, by rw [Script.read_eq]; with_unfolding_all rfl,
      Script.read_numeral ht hx, by with_unfolding_all rfl,
      fun lookup h => by simp [infinite, Expr.placed] at h⟩

end ScriptReader

import ScriptReader.Proofs.Phrase.Formed
import ScriptReader.Proofs.Script.Each
import ScriptReader.Proofs.Script.Sessions

/-!
# Proofs/Script/WellFormed — the scripts that are read are well formed

A line makes a statement or an opening out of well-formed expressions.  That all statements made so
far are well formed, and that a choice has a branch before `else`, is what every line of a script
preserves (`Blocks.wellFormed_feed`); so a script that is read is well formed at every depth
(`Script.trees_well_formed`).
-/

namespace ScriptReader

open ScriptReader.Bracket

variable {Part : Phrase → Prop}

/-! ## Well-formed statements -/

/-- **The statement is well formed**, with all that it is made of. -/
inductive Stmt.WellFormed (Part : Phrase → Prop) : Stmt → Prop
  | expression {e : Expr} (h : e.WellFormed Part) : WellFormed Part (.expression e)
  | print {arguments : List Expr} (h : ∀ e ∈ arguments, e.WellFormed Part) :
      WellFormed Part (.print arguments)
  /-- A choice has a branch. -/
  | choice {branches : List Branch} {otherwise : Option (List Stmt)} (hne : branches ≠ [])
      (hconditions : ∀ b ∈ branches, b.1.WellFormed Part)
      (hbodies : ∀ b ∈ branches, ∀ s ∈ b.2, WellFormed Part s)
      (hotherwise : ∀ body ∈ otherwise, ∀ s ∈ body, WellFormed Part s) :
      WellFormed Part (.choice branches otherwise)
  | whileLoop {condition : Expr} {body : List Stmt} (hcondition : condition.WellFormed Part)
      (hbody : ∀ s ∈ body, WellFormed Part s) : WellFormed Part (.whileLoop condition body)
  | forLoop {iterator iterable : Expr} {body : List Stmt} (hplace : iterator.IsPlace)
      (hiterator : iterator.WellFormed Part) (hiterable : iterable.WellFormed Part)
      (hbody : ∀ s ∈ body, WellFormed Part s) : WellFormed Part (.forLoop iterator iterable body)
  /-- `continue` has no value. -/
  | jump {kind : Jump} {value : Option Expr} (hcontinue : kind = .continueLoop → value = none)
      (h : ∀ e ∈ value, e.WellFormed Part) : WellFormed Part (.jump kind value)
  | assign {target : Expr} {indices : List Expr} {value : Expr} (hplace : target.IsPlace)
      (htarget : target.WellFormed Part) (hindices : ∀ e ∈ indices, e.WellFormed Part)
      (hvalue : value.WellFormed Part) : WellFormed Part (.assign target indices value)
  /-- A function is given a name that is not in scope yet. -/
  | function {identifier : String} {parameters : List Parameter} {body : List Stmt}
      (hdefaults : ∀ p ∈ parameters, ∀ e ∈ p.default?, e.WellFormed Part)
      (hbody : ∀ s ∈ body, WellFormed Part s) :
      WellFormed Part (.function (.name identifier .definition) parameters body)

/-- **The name of a function is an identifier with three flags set**, and no others. -/
theorem Stmt.WellFormed.exists_of_function {name : Expr} {parameters : List Parameter}
    {body : List Stmt} (h : (Stmt.function name parameters body).WellFormed Part) :
    ∃ identifier lookup, name = .name identifier lookup
      ∧ lookup.labels = ["BY_REFERENCE", "LOCAL_ONLY", "NOT_IN_SCOPE"] := by
  cases h with
  | function => exact ⟨_, _, rfl, by decide⟩

/-- The branches of a choice have been collected from the last one on. -/
theorem Stmt.wellFormed_choice_reverse {branches : List Branch} {otherwise : Option (List Stmt)}
    (hne : branches ≠ [])
    (hall : ∀ b ∈ branches, b.1.WellFormed Part ∧ ∀ s ∈ b.2, s.WellFormed Part)
    (hotherwise : ∀ body ∈ otherwise, ∀ s ∈ body, s.WellFormed Part) :
    (Stmt.choice branches.reverse otherwise).WellFormed Part :=
  .choice (List.reverse_ne_nil_iff.mpr hne)
    (fun b hb => (hall b (List.mem_reverse.mp hb)).1)
    (fun b hb => (hall b (List.mem_reverse.mp hb)).2) hotherwise

/-- What the opening opens is well formed if its body is. -/
inductive Opening.WellFormed (Part : Phrase → Prop) : Opening → Prop
  | whileLoop {condition : Expr} (hcondition : condition.WellFormed Part) :
      WellFormed Part (.whileLoop condition)
  | forLoop {iterator iterable : Expr} (hplace : iterator.IsPlace)
      (hiterator : iterator.WellFormed Part) (hiterable : iterable.WellFormed Part) :
      WellFormed Part (.forLoop iterator iterable)
  | function {identifier : String} {parameters : List Parameter}
      (hdefaults : ∀ p ∈ parameters, ∀ e ∈ p.default?, e.WellFormed Part) :
      WellFormed Part (.function (.name identifier .definition) parameters)

theorem Opening.WellFormed.close {o : Opening} {body : List Stmt} (h : o.WellFormed Part)
    (hbody : ∀ s ∈ body, s.WellFormed Part) : (o.close body).WellFormed Part := by
  cases h with
  | whileLoop hcondition => exact .whileLoop hcondition hbody
  | forLoop hplace hiterator hiterable => exact .forLoop hplace hiterator hiterable hbody
  | function hdefaults => exact .function hdefaults hbody

/-- What a line makes is well formed. -/
inductive Line.WellFormed (Part : Phrase → Prop) : Line → Prop
  | complete {s : Stmt} (h : s.WellFormed Part) : WellFormed Part (.complete s)
  | opening {o : Opening} (h : o.WellFormed Part) (body : Option Phrase) :
      WellFormed Part (.opening o body)
  | choice {condition : Expr} (h : condition.WellFormed Part) (body : Option Phrase) :
      WellFormed Part (.choice condition body)

/-! ## Lines -/

theorem Stmt.Each.wellFormed {s : Stmt} (h : s.Each fun _ => Expr.WellFormed Part) :
    s.WellFormed Part := by
  induction h with
  | expression h => exact .expression h
  | print h => exact .print h
  | choice hconditions _ _ ihbodies ihotherwise =>
    exact .choice (List.cons_ne_nil _ _) hconditions ihbodies ihotherwise
  | whileLoop hcondition _ ih => exact .whileLoop hcondition ih
  | forLoop hplace hiterator hiterable _ ih => exact .forLoop hplace hiterator hiterable ih
  | jump hcontinue h => exact .jump hcontinue h
  | assign _ hplace htarget hindices hvalue => exact .assign hplace htarget hindices hvalue
  | function _ _ hdefaults _ ih => exact .function hdefaults ih

theorem Opening.Each.wellFormed {o : Opening} (h : o.Each fun _ => Expr.WellFormed Part) :
    o.WellFormed Part := by
  cases h with
  | whileLoop hcondition => exact .whileLoop hcondition
  | forLoop hplace hiterator hiterable => exact .forLoop hplace hiterator hiterable
  | function _ _ hdefaults => exact .function hdefaults

namespace Phrase

variable {p : Phrase} (hpart : AreParts Part) (hp : Part p)
include hpart hp

theorem wellFormed_readCondition : Yields (Expr.WellFormed Part) p.readCondition :=
  each_readCondition hpart (Expr.wellFormed_read hpart) hp

/-- **Every line that is read is well formed.** -/
theorem wellFormed_readLine : Yields (Line.WellFormed Part) (Line.read p) := fun l h => by
  cases each_readLine hpart (Expr.wellFormed_read hpart) hp l h with
  | complete hs => exact .complete hs.wellFormed
  | opening ho body => exact .opening ho.wellFormed body
  | choice hc body => exact .choice hc body

theorem part_inlineBody? {q : Phrase} (h : p.inlineBody? = some q) : Part q := by
  unfold inlineBody? at h
  split at h
  · split at h
    · cases h
      exact hpart.slice hp _ _
    · cases h
  · cases h

end Phrase

/-! ## Blocks -/

/-- What has been read of a statement is well formed. -/
inductive Frame.WellFormed (Part : Phrase → Prop) : Frame → Prop
  | block {o : Opening} {body : List Stmt} (h : o.WellFormed Part)
      (hbody : ∀ s ∈ body, s.WellFormed Part) : WellFormed Part (.block o body)
  | awaiting {o : Opening} (h : o.WellFormed Part) : WellFormed Part (.awaiting o)
  /-- Before `else` there is a branch. -/
  | choice {branches : List Branch} {condition : Option Expr} {isInline : Bool} {body : List Stmt}
      (hbranches : ∀ b ∈ branches, b.1.WellFormed Part ∧ ∀ s ∈ b.2, s.WellFormed Part)
      (hcondition : ∀ c ∈ condition, c.WellFormed Part) (hne : condition = none → branches ≠ [])
      (hbody : ∀ s ∈ body, s.WellFormed Part) :
      WellFormed Part (.choice branches condition isInline body)

namespace Blocks

/-- **All that has been read of a script is well formed.** -/
structure WellFormed (Part : Phrase → Prop) (b : Blocks) : Prop where
  frames : ∀ f ∈ b.frames, f.WellFormed Part
  done : ∀ s ∈ b.done, s.WellFormed Part

variable {b : Blocks} {p : Phrase}

theorem wellFormed_empty : empty.WellFormed Part := ⟨nofun, nofun⟩

theorem WellFormed.push {f : Frame} (h : b.WellFormed Part) (hf : f.WellFormed Part) :
    (b.push f).WellFormed Part :=
  ⟨List.forall_mem_cons.mpr ⟨hf, h.frames⟩, h.done⟩

theorem wellFormed_put {s : Stmt} {done : List Stmt} {frames : List Frame} (hs : s.WellFormed Part)
    (hdone : ∀ s ∈ done, s.WellFormed Part) (hall : ∀ f ∈ frames, f.WellFormed Part) :
    (put s done frames).WellFormed Part := by
  induction frames generalizing s with
  | nil => exact ⟨nofun, List.forall_mem_cons.mpr ⟨hs, hdone⟩⟩
  | cons f frames ih =>
    obtain ⟨hf, hframes⟩ := List.forall_mem_cons.mp hall
    cases hf with
    | block h hbody =>
      exact ⟨List.forall_mem_cons.mpr ⟨.block h (List.forall_mem_cons.mpr ⟨hs, hbody⟩), hframes⟩,
        hdone⟩
    | awaiting h => exact ih (h.close (List.forall_mem_singleton.mpr hs)) hframes
    | choice hbranches hcondition hne hbody =>
      exact ⟨List.forall_mem_cons.mpr ⟨.choice hbranches hcondition hne
        (List.forall_mem_cons.mpr ⟨hs, hbody⟩), hframes⟩, hdone⟩

/-- A choice is opened with its condition, and no branch before it. -/
theorem wellFormed_choice {c : Expr} (hc : c.WellFormed Part) (isInline : Bool) :
    (Frame.choice [] (some c) isInline []).WellFormed Part :=
  .choice nofun (forall_mem_some hc) nofun nofun

theorem wellFormed_begin (h : b.WellFormed Part) (hpart : Phrase.AreParts Part) (hp : Part p) :
    Yields (WellFormed Part) (b.begin p) := by
  have hline := Phrase.wellFormed_readLine hpart hp
  fun_induction begin p b with
  | case1 => nofun
  | case2 p b s hread =>
    cases hline _ hread with
    | complete hs => exact .ok (wellFormed_put hs h.done h.frames)
  | case3 p b o hread =>
    cases hline _ hread with
    | opening ho => exact .ok (h.push (.block ho nofun))
  | case4 p b o q hread ih =>
    cases hline _ hread with
    | opening ho =>
      have hq := Phrase.part_inlineBody? hpart hp (Line.inlineBody?_eq hread (.inl ⟨o, rfl⟩))
      exact ih (h.push (.awaiting ho)) hq (Phrase.wellFormed_readLine hpart hq)
  | case5 p b c hread =>
    cases hline _ hread with
    | choice hc => exact .ok (h.push (wellFormed_choice hc false))
  | case6 p b c q hread ih =>
    cases hline _ hread with
    | choice hc =>
      have hq := Phrase.part_inlineBody? hpart hp (Line.inlineBody?_eq hread (.inr ⟨c, rfl⟩))
      exact ih (h.push (wellFormed_choice hc true)) hq (Phrase.wellFormed_readLine hpart hq)

theorem wellFormed_beginBranch {branches : List Branch} {condition : Option Expr}
    (h : b.WellFormed Part) (hpart : Phrase.AreParts Part) (hp : Part p)
    (hframe : ∀ isInline, (Frame.choice branches condition isInline []).WellFormed Part) :
    Yields (WellFormed Part) (beginBranch branches condition p b) := by
  unfold beginBranch
  split
  · exact .ok (h.push (hframe false))
  · next q hq =>
    exact wellFormed_begin (h.push (hframe true)) hpart (Phrase.part_inlineBody? hpart hp hq)

theorem wellFormed_close {kind : BlockKind} {s : Stmt} (h : b.WellFormed Part)
    (hs : s.WellFormed Part) : Yields (WellFormed Part) (close kind s p b) := by
  unfold close
  split
  · exact .ok (wellFormed_put hs h.done h.frames)
  · exact .refuse

theorem wellFormed_closeChoice {branches : List Branch} {condition : Option Expr}
    {isInline : Bool} {body : List Stmt}
    (h : (Frame.choice branches condition isInline body).WellFormed Part) :
    (closeChoice branches condition body).WellFormed Part := by
  cases h with
  | choice hbranches hcondition hne hbody =>
    have hreverse : ∀ s ∈ body.reverse, s.WellFormed Part := fun s hs =>
      hbody s (List.mem_reverse.mp hs)
    cases condition with
    | none => exact Stmt.wellFormed_choice_reverse (hne rfl) hbranches (forall_mem_some hreverse)
    | some c =>
      have hall : ∀ b ∈ (c, body.reverse) :: branches, b.1.WellFormed Part
          ∧ ∀ s ∈ b.2, s.WellFormed Part :=
        List.forall_mem_cons.mpr ⟨⟨hcondition c rfl, hreverse⟩, hbranches⟩
      exact Stmt.wellFormed_choice_reverse (List.cons_ne_nil _ _) hall nofun

/-- A branch is begun behind the one that ends with the line. -/
theorem wellFormed_nextBranch {branches : List Branch} {c : Expr} {condition : Option Expr}
    {isInline : Bool} {body : List Stmt}
    (h : (Frame.choice branches (some c) isInline body).WellFormed Part)
    (hcondition : ∀ c ∈ condition, c.WellFormed Part) (isInline' : Bool) :
    (Frame.choice ((c, body.reverse) :: branches) condition isInline' []).WellFormed Part := by
  cases h with
  | choice hbranches hc _ hbody =>
    refine .choice (List.forall_mem_cons.mpr ⟨⟨hc c rfl, fun s hs => ?_⟩, hbranches⟩) hcondition
      (fun _ => List.cons_ne_nil _ _) nofun
    exact hbody s (List.mem_reverse.mp hs)

/-- **Every line preserves that all is well formed.** -/
theorem wellFormed_feed (h : b.WellFormed Part) (hpart : Phrase.AreParts Part) (hp : Part p) :
    Yields (WellFormed Part) (feed p b) := by
  have hbegin := wellFormed_begin h hpart hp
  have hall := h.frames
  rw [feed]
  split
  · split
    · exact .refuse
    · exact hbegin
  · exact hbegin
  · next o body outer hframes =>
    rw [hframes] at hall
    obtain ⟨hf, houter⟩ := List.forall_mem_cons.mp hall
    split
    · cases hf with
      | block ho hbody =>
        exact wellFormed_close ⟨houter, h.done⟩
          (ho.close fun s hs => hbody s (List.mem_reverse.mp hs))
    · exact hbegin
  · next branches condition isInline body outer hframes =>
    rw [hframes] at hall
    obtain ⟨hf, houter⟩ := List.forall_mem_cons.mp hall
    have hrest : WellFormed Part { b with frames := outer } := ⟨houter, h.done⟩
    have hmore : Yields (WellFormed Part) (if isTerminator p || (isInline && !body.isEmpty) then
        close .choice (closeChoice branches condition body) p { b with frames := outer }
        else b.begin p) := by
      split
      · exact wellFormed_close hrest (wellFormed_closeChoice hf)
      · exact hbegin
    dsimp only
    split
    · exact hmore
    · next c =>
      split
      · refine (Phrase.wellFormed_readCondition hpart hp).bind fun c' hc' => ?_
        exact wellFormed_beginBranch hrest hpart hp (wellFormed_nextBranch hf (forall_mem_some hc'))
      split
      · refine Yields.trivial.bind fun _ _ => ?_
        exact wellFormed_beginBranch hrest hpart hp (wellFormed_nextBranch hf (by simp))
      · exact hmore

theorem wellFormed_finish {line : Nat} (h : b.WellFormed Part) :
    Yields (fun script => ∀ s ∈ script, s.WellFormed Part) (b.finish line) := by
  unfold finish
  split
  · exact .ok fun s hs => h.done s (List.mem_reverse.mp hs)
  · nofun

end Blocks

/-! ## Scripts -/

/-- The phrase is a stretch of one of the statements that are scanned from the source. -/
inductive Source.HasPhrase : Source → Phrase → Prop
  | here {src : Source} {p : Phrase} (h : p.LiesIn src.scan.tokens) : HasPhrase src p
  | later {src : Source} {p : Phrase} (h : HasPhrase src.scan.source p) : HasPhrase src p

namespace Source

theorem areParts_hasPhrase (src : Source) : Phrase.AreParts src.HasPhrase where
  isScanned hp := by
    induction hp with
    | here h =>
      obtain ⟨before, after, hline, -⟩ := h
      exact fun t ht => isLexeme_of_mem_scan (by rw [hline]; simp [ht])
    | later _ ih => exact ih
  slice hp first last := by
    induction hp with
    | here h => exact .here (h.slice first last)
    | later _ ih => exact .later ih
  segment hp hq := by
    induction hp with
    | here h => exact .here (h.segment hq)
    | later _ ih => exact .later (ih hq)

theorem wellFormed_scriptFrom (hpart : Phrase.AreParts Part) {src : Source} {b : Blocks}
    (hall : ∀ p, src.HasPhrase p → Part p) (h : b.WellFormed Part) :
    Yields (fun script => ∀ s ∈ script, s.WellFormed Part) (src.scriptFrom b) := by
  fun_induction scriptFrom src b with
  | case1 => exact .error
  | case2 => exact Blocks.wellFormed_finish h
  | case3 => exact .error
  | case4 src b herror hne _ b' hfeed ih =>
    have hwhole : Part (.whole src.scan.tokens) := hall _ (.here (.whole _))
    exact ih (fun p hp => hall p (.later hp)) (Blocks.wellFormed_feed h hpart hwhole b' hfeed)

end Source

/-- **Every script that is read is well formed.** -/
theorem Script.trees_well_formed {source : String} {script : Script}
    (h : Script.read source = .ok script) :
    ∀ s ∈ script, s.WellFormed (Source.ofString source).HasPhrase := by
  rw [Script.read_eq] at h
  have hpart := Source.areParts_hasPhrase (.ofString source)
  exact Source.wellFormed_scriptFrom hpart (fun _ hp => hp) Blocks.wellFormed_empty script h

/-- A sign before a slice has no left operand. -/
theorem Script.trees_well_formed_signed_slice :
    let script : Script := [.assign (.name "x" .binding) []
      (.unary .minus (.binary .slice (.name "a" .value)
        (.array [.name "b" .value, .name "c" .value])))]
    Script.read "x = -a[b:c]" = .ok script
      ∧ ∀ s ∈ script, s.WellFormed (Source.ofString "x = -a[b:c]").HasPhrase := by
  intro script
  have hread : Script.read "x = -a[b:c]" = .ok script := by
    rw [Script.read_eq]
    with_unfolding_all rfl
  exact ⟨hread, Script.trees_well_formed hread⟩

end ScriptReader

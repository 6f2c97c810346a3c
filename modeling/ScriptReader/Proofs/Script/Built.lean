import ScriptReader.Proofs.Script.WellFormed

/-!
# Proofs/Script/Built — what lines and closed blocks have, every statement of a script has

A statement of a script is what a line makes, or is closed over statements read before.  So a
property of statements holds of all that is read if what lines make has it and closing a block
preserves it (`Built`); this is what every line of a script preserves (`Built.feed`), whatever
blocks are open, and so what a script has (`Built.read`).
-/

namespace ScriptReader

/-- **How statements come to have a property** `S`: from lines, and from the conditions `C` and the
openings `O` of blocks with their bodies. -/
structure Built (Part : Phrase → Prop) (C : Expr → Prop) (O : Opening → Prop)
    (S : Stmt → Prop) : Prop where
  parts : Phrase.AreParts Part
  line {p : Phrase} (hp : Part p) : Yields (Line.Has C O S) (Line.read p)
  condition {p : Phrase} (hp : Part p) : Yields C p.readCondition
  close {o : Opening} {body : List Stmt} (ho : O o) (hbody : ∀ s ∈ body, S s) : S (o.close body)
  choice {b : Branch} {branches : List Branch} {otherwise : Option (List Stmt)}
    (hbranches : ∀ x ∈ b :: branches, C x.1 ∧ ∀ s ∈ x.2, S s)
    (hotherwise : ∀ body ∈ otherwise, ∀ s ∈ body, S s) : S (.choice (b :: branches) otherwise)

/-- What has been read of a statement has the properties of its parts. -/
inductive Frame.Has (C : Expr → Prop) (O : Opening → Prop) (S : Stmt → Prop) : Frame → Prop
  | block {o : Opening} {body : List Stmt} (h : O o) (hbody : ∀ s ∈ body, S s) :
      Has C O S (.block o body)
  | awaiting {o : Opening} (h : O o) : Has C O S (.awaiting o)
  /-- Before `else` there is a branch. -/
  | choice {branches : List Branch} {condition : Option Expr} {isInline : Bool} {body : List Stmt}
      (hbranches : ∀ b ∈ branches, C b.1 ∧ ∀ s ∈ b.2, S s) (hcondition : ∀ c ∈ condition, C c)
      (hne : condition = none → branches ≠ []) (hbody : ∀ s ∈ body, S s) :
      Has C O S (.choice branches condition isInline body)

/-- All that has been read of a script has the properties that go with it. -/
structure Blocks.Have (C : Expr → Prop) (O : Opening → Prop) (S : Stmt → Prop) (b : Blocks) :
    Prop where
  frames : ∀ f ∈ b.frames, f.Has C O S
  done : ∀ s ∈ b.done, S s

namespace Built

variable {Part : Phrase → Prop} {C : Expr → Prop} {O : Opening → Prop} {S : Stmt → Prop}
  {b : Blocks} {p : Phrase}

theorem push {f : Frame} (h : b.Have C O S) (hf : f.Has C O S) : (b.push f).Have C O S :=
  ⟨List.forall_mem_cons.mpr ⟨hf, h.frames⟩, h.done⟩

variable (hbuilt : Built Part C O S)
include hbuilt

theorem put {s : Stmt} {done : List Stmt} {frames : List Frame} (hs : S s)
    (hdone : ∀ s ∈ done, S s) (hall : ∀ f ∈ frames, f.Has C O S) :
    (Blocks.put s done frames).Have C O S := by
  induction frames generalizing s with
  | nil => exact ⟨List.forall_mem_nil _, List.forall_mem_cons.mpr ⟨hs, hdone⟩⟩
  | cons f frames ih =>
    obtain ⟨hf, hframes⟩ := List.forall_mem_cons.mp hall
    cases hf with
    | block h hbody =>
      have hmore := List.forall_mem_cons.mpr ⟨hs, hbody⟩
      exact ⟨List.forall_mem_cons.mpr ⟨.block h hmore, hframes⟩, hdone⟩
    | awaiting h => exact ih (hbuilt.close h (List.forall_mem_singleton.mpr hs)) hframes
    | choice hbranches hcondition hne hbody =>
      have hmore := List.forall_mem_cons.mpr ⟨hs, hbody⟩
      exact ⟨List.forall_mem_cons.mpr ⟨.choice hbranches hcondition hne hmore, hframes⟩, hdone⟩

theorem begin (h : b.Have C O S) (hp : Part p) : Yields (Blocks.Have C O S) (b.begin p) := by
  have hchoice {c : Expr} (hc : C c) (isInline : Bool) :
      (Frame.choice [] (some c) isInline []).Has C O S :=
    .choice (List.forall_mem_nil _) (forall_mem_some hc) (absurd · (Option.some_ne_none c))
      (List.forall_mem_nil _)
  fun_induction Blocks.begin p b with
  | case1 => exact .error
  | case2 p b s hread =>
    cases hbuilt.line hp _ hread with
    | complete hs => exact .ok (hbuilt.put hs h.done h.frames)
  | case3 p b o hread =>
    cases hbuilt.line hp _ hread with
    | opening ho => exact .ok (push h (.block ho (List.forall_mem_nil _)))
  | case4 p b o q hread ih =>
    cases hbuilt.line hp _ hread with
    | opening ho =>
      exact ih (push h (.awaiting ho)) (Phrase.part_inlineBody? hbuilt.parts hp
        (Line.inlineBody?_eq hread (.inl ⟨o, rfl⟩)))
  | case5 p b c hread =>
    cases hbuilt.line hp _ hread with
    | choice hc => exact .ok (push h (hchoice hc false))
  | case6 p b c q hread ih =>
    cases hbuilt.line hp _ hread with
    | choice hc =>
      exact ih (push h (hchoice hc true)) (Phrase.part_inlineBody? hbuilt.parts hp
        (Line.inlineBody?_eq hread (.inr ⟨c, rfl⟩)))

theorem beginBranch {branches : List Branch} {condition : Option Expr} (h : b.Have C O S)
    (hp : Part p)
    (hframe : ∀ isInline, (Frame.choice branches condition isInline []).Has C O S) :
    Yields (Blocks.Have C O S) (Blocks.beginBranch branches condition p b) := by
  unfold Blocks.beginBranch
  split
  · exact .ok (push h (hframe false))
  · next q hq =>
    exact hbuilt.begin (push h (hframe true)) (Phrase.part_inlineBody? hbuilt.parts hp hq)

theorem closeBlock {kind : BlockKind} {s : Stmt} (h : b.Have C O S) (hs : S s) :
    Yields (Blocks.Have C O S) (Blocks.close kind s p b) := by
  unfold Blocks.close
  split
  · exact .ok (hbuilt.put hs h.done h.frames)
  · exact .refuse

/-- The branches of a choice have been collected from the last one on. -/
theorem choiceReverse {branches : List Branch} {otherwise : Option (List Stmt)}
    (hne : branches ≠ []) (hbranches : ∀ b ∈ branches, C b.1 ∧ ∀ s ∈ b.2, S s)
    (hotherwise : ∀ body ∈ otherwise, ∀ s ∈ body, S s) :
    S (.choice branches.reverse otherwise) := by
  obtain ⟨b, rest, heq⟩ := List.exists_cons_of_ne_nil (List.reverse_ne_nil_iff.mpr hne)
  rw [heq]
  exact hbuilt.choice (fun x hx => hbranches x (List.mem_reverse.mp (heq ▸ hx))) hotherwise

theorem closeChoice {branches : List Branch} {condition : Option Expr} {isInline : Bool}
    {body : List Stmt} (h : (Frame.choice branches condition isInline body).Has C O S) :
    S (closeChoice branches condition body) := by
  cases h with
  | choice hbranches hcondition hne hbody =>
    have hreverse : ∀ s ∈ body.reverse, S s := fun s hs => hbody s (List.mem_reverse.mp hs)
    cases condition with
    | none => exact hbuilt.choiceReverse (hne rfl) hbranches (forall_mem_some hreverse)
    | some c =>
      exact hbuilt.choiceReverse (List.cons_ne_nil _ _)
        (List.forall_mem_cons.mpr ⟨⟨hcondition c rfl, hreverse⟩, hbranches⟩) forall_mem_none

omit hbuilt in
/-- A branch is begun behind the one that ends with the line. -/
theorem nextBranch {branches : List Branch} {c : Expr} {condition : Option Expr} {isInline : Bool}
    {body : List Stmt} (h : (Frame.choice branches (some c) isInline body).Has C O S)
    (hcondition : ∀ c ∈ condition, C c) (isInline' : Bool) :
    (Frame.choice ((c, body.reverse) :: branches) condition isInline' []).Has C O S := by
  cases h with
  | choice hbranches hc _ hbody =>
    have hreverse : ∀ s ∈ body.reverse, S s := fun s hs => hbody s (List.mem_reverse.mp hs)
    exact .choice (List.forall_mem_cons.mpr ⟨⟨hc c rfl, hreverse⟩, hbranches⟩) hcondition
      (fun _ => List.cons_ne_nil _ _) (List.forall_mem_nil _)

/-- **Every line preserves it.** -/
theorem feed (h : b.Have C O S) (hp : Part p) : Yields (Blocks.Have C O S) (Blocks.feed p b) := by
  have hbegin := hbuilt.begin h hp
  have hall := h.frames
  rw [Blocks.feed]
  split
  · split
    · exact .refuse
    · exact hbegin
  · exact hbegin
  · next o body outer hframes =>
    rw [hframes] at hall
    obtain ⟨hf, houter⟩ := List.forall_mem_cons.mp hall
    split
    · cases hf with
      | block ho hbody =>
        have hclosed := hbuilt.close ho fun s hs => hbody s (List.mem_reverse.mp hs)
        exact hbuilt.closeBlock ⟨houter, h.done⟩ hclosed
    · exact hbegin
  · next branches condition isInline body outer hframes =>
    rw [hframes] at hall
    obtain ⟨hf, houter⟩ := List.forall_mem_cons.mp hall
    have hrest : Blocks.Have C O S { b with frames := outer } := ⟨houter, h.done⟩
    have hmore : Yields (Blocks.Have C O S)
        (if Blocks.isTerminator p || (isInline && !body.isEmpty) then
          Blocks.close .choice (ScriptReader.closeChoice branches condition body) p
            { b with frames := outer }
        else b.begin p) := by
      split
      · exact hbuilt.closeBlock hrest (hbuilt.closeChoice hf)
      · exact hbegin
    dsimp only
    split
    · exact hmore
    · next c =>
      split
      · refine (hbuilt.condition hp).bind fun c' hc' => ?_
        exact hbuilt.beginBranch hrest hp (nextBranch hf (forall_mem_some hc'))
      split
      · refine Yields.trivial.bind fun _ _ => ?_
        exact hbuilt.beginBranch hrest hp (nextBranch hf forall_mem_none)
      · exact hmore

/-- All statements that are read from a source have it. -/
theorem scriptFrom {src : Source} (hall : ∀ p, src.HasPhrase p → Part p) (h : b.Have C O S) :
    Yields (fun script => ∀ s ∈ script, S s) (src.scriptFrom b) := by
  fun_induction Source.scriptFrom src b with
  | case1 => exact .error
  | case2 src b =>
    unfold Blocks.finish
    split
    · exact .ok fun s hs => h.done s (List.mem_reverse.mp hs)
    · exact .error
  | case3 => exact .error
  | case4 src b herror hne _ b' hfeed ih =>
    have hwhole : Part (.whole src.scan.tokens) := hall _ (.here (.whole _))
    exact ih (fun p hp => hall p (.later hp)) (hbuilt.feed h hwhole b' hfeed)

omit hbuilt in
/-- **All statements of a script have it.** -/
theorem read {source : String} (hbuilt : Built (Source.ofString source).HasPhrase C O S) :
    Yields (fun script => ∀ s ∈ script, S s) (Script.read source) := by
  have hempty : Blocks.empty.Have C O S := ⟨List.forall_mem_nil _, List.forall_mem_nil _⟩
  rw [Script.read_eq]
  exact hbuilt.scriptFrom (fun _ hp => hp) hempty

end Built

/-- **What holds of every expression that is read holds of each expression of a statement**, with
the look-up of its place. -/
theorem built_each {Part : Phrase → Prop} {E : Lookup → Expr → Prop}
    (hpart : Phrase.AreParts Part)
    (hread : ∀ {p : Phrase}, Part p → ∀ lookup, Yields (E lookup) (Expr.read p lookup)) :
    Built Part (E .value) (Opening.Each E) (Stmt.Each E) where
  parts := hpart
  line hp := Phrase.each_readLine hpart hread hp
  condition hp := Phrase.each_readCondition hpart hread hp
  close ho hbody := ho.close hbody
  choice hbranches hotherwise :=
    .choice (fun x hx => (hbranches x hx).1) (fun x hx => (hbranches x hx).2) hotherwise

end ScriptReader

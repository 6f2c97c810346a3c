import ScriptReader.Proofs.Printed.Passage
import ScriptReader.Proofs.Printed.Shown

/-!
# Proofs/Printed/Statement — a statement is known from its passage, as far as it is shown

The passage of a statement is a line, or a block with a section for each of its bodies.  The first
line says which statement it is (`Passage.label`), and the forms on the lines say what it is made
of; so legible statements of one passage are shown alike (`Stmt.IsLegible.shown_eq`).
-/

namespace ScriptReader

/-! ## What is shown -/

def Parameter.shown (p : Parameter) : Parameter := ⟨p.name, p.default?.map Expr.shown⟩

mutual

/-- **The statement as far as its printed lines show it**, which is as far as they show its
expressions. -/
def Stmt.shown : Stmt → Stmt
  | .expression e => .expression e.shown
  | .print arguments => .print (shownEach arguments)
  | .choice branches none => .choice (shownBranches branches) none
  | .choice branches (some body) => .choice (shownBranches branches) (some (shownBody body))
  | .whileLoop condition body => .whileLoop condition.shown (shownBody body)
  | .forLoop iterator iterable body => .forLoop iterator.shown iterable.shown (shownBody body)
  | .jump kind value => .jump kind (value.map Expr.shown)
  | .assign target indices value => .assign target.shown (shownEach indices) value.shown
  | .function name parameters body =>
    .function name.shown (parameters.map Parameter.shown) (shownBody body)

def shownBody : List Stmt → List Stmt
  | [] => []
  | s :: body => s.shown :: shownBody body

def shownBranches : List (Expr × List Stmt) → List (Expr × List Stmt)
  | [] => []
  | (condition, body) :: branches => (condition.shown, shownBody body) :: shownBranches branches

end

/-- **The script as far as its printed form shows it.** -/
def Script.shown (script : Script) : Script := shownBody script

/-- A parameter with the form of its default. -/
def Parameter.form (p : Parameter) : String × Option Form := (p.name, p.default?.map Expr.form)

mutual

/-- The passage that a statement is printed as. -/
def Stmt.passage : Stmt → Passage
  | .expression e => .line (.plain e.form)
  | .print arguments => .line (.plain (.group .print (formEach arguments)))
  | .choice branches none => .block (branchSections "if" branches)
  | .choice branches (some body) =>
    .block (branchSections "if" branches ++ [(.opener "else" [], bodyPassages body)])
  | .whileLoop condition body =>
    .block [(.opener "while" [condition.form], bodyPassages body)]
  | .forLoop iterator iterable body =>
    .block [(.opener "for" [iterator.form, .word "in", iterable.form], bodyPassages body)]
  | .jump kind value => .line (.plain (.group (.jump kind) (value.toList.map Expr.form)))
  | .assign target indices value =>
    .line (.assignment target.assignmentSymbol target.form (formEach indices) value.form)
  | .function name parameters body =>
    .block [(.definition name.form (parameters.map Parameter.form), bodyPassages body)]

def bodyPassages : List Stmt → List Passage
  | [] => []
  | s :: body => s.passage :: bodyPassages body

/-- The sections of a choice's branches, the first of which has the given keyword. -/
def branchSections (keyword : String) : List (Expr × List Stmt) → List (Heading × List Passage)
  | [] => []
  | (condition, body) :: branches =>
    (.opener keyword [condition.form], bodyPassages body) :: branchSections "elif" branches

end

theorem shownBody_eq_map (body : List Stmt) : shownBody body = body.map Stmt.shown := by
  induction body with
  | nil => rw [shownBody]; rfl
  | cons s body ih => rw [shownBody, ih]; rfl

theorem bodyPassages_eq_map (body : List Stmt) : bodyPassages body = body.map Stmt.passage := by
  induction body with
  | nil => rw [bodyPassages]; rfl
  | cons s body ih => rw [bodyPassages, ih]; rfl

theorem shownBranches_eq_map (branches : List Branch) :
    shownBranches branches = branches.map fun b => (b.1.shown, b.2.map Stmt.shown) := by
  induction branches with
  | nil => rw [shownBranches]; rfl
  | cons b branches ih =>
    obtain ⟨condition, body⟩ := b
    rw [shownBranches, ih, shownBody_eq_map]
    rfl

/-- The section of a branch. -/
def branchSection (keyword : String) (b : Branch) : Heading × List Passage :=
  (.opener keyword [b.1.form], b.2.map Stmt.passage)

theorem branchSections_cons (keyword : String) (b : Branch) (branches : List Branch) :
    branchSections keyword (b :: branches)
      = branchSection keyword b :: branches.map (branchSection "elif") := by
  obtain ⟨condition, body⟩ := b
  rw [branchSections, bodyPassages_eq_map]
  congr 1
  induction branches with
  | nil => rw [branchSections]; rfl
  | cons b branches ih =>
    obtain ⟨condition, body⟩ := b
    rw [branchSections, bodyPassages_eq_map, ih]
    rfl

/-- The section of what is done if no condition holds, if there is one. -/
def otherwiseSections : Option (List Stmt) → List (Heading × List Passage)
  | none => []
  | some body => [(.opener "else" [], body.map Stmt.passage)]

theorem Stmt.passage_choice (branches : List Branch) (otherwise : Option (List Stmt)) :
    (Stmt.choice branches otherwise).passage
      = .block (branchSections "if" branches ++ otherwiseSections otherwise) := by
  cases otherwise with
  | none => rw [passage, otherwiseSections, List.append_nil]
  | some body => rw [passage, bodyPassages_eq_map, otherwiseSections]

theorem Stmt.shown_choice (branches : List Branch) (otherwise : Option (List Stmt)) :
    (Stmt.choice branches otherwise).shown
      = .choice (shownBranches branches) (otherwise.map shownBody) := by
  cases otherwise with
  | none => rw [shown]; rfl
  | some body => rw [shown]; rfl

/-! ## Legible statements -/

/-- The expressions of the statement are legible, and so are the names of its parameters.  A choice
has a branch. -/
inductive Stmt.IsLegible : Stmt → Prop
  | expression {e : Expr} (h : e.IsLegible) : IsLegible (.expression e)
  | print {arguments : List Expr} (h : ∀ e ∈ arguments, e.IsLegible) : IsLegible (.print arguments)
  | choice {b : Branch} {branches : List Branch} {otherwise : Option (List Stmt)}
      (hconditions : ∀ x ∈ b :: branches, x.1.IsLegible)
      (hbodies : ∀ x ∈ b :: branches, ∀ s ∈ x.2, IsLegible s)
      (hotherwise : ∀ body ∈ otherwise, ∀ s ∈ body, IsLegible s) :
      IsLegible (.choice (b :: branches) otherwise)
  | whileLoop {condition : Expr} {body : List Stmt} (hcondition : condition.IsLegible)
      (hbody : ∀ s ∈ body, IsLegible s) : IsLegible (.whileLoop condition body)
  | forLoop {iterator iterable : Expr} {body : List Stmt} (hiterator : iterator.IsLegible)
      (hiterable : iterable.IsLegible) (hbody : ∀ s ∈ body, IsLegible s) :
      IsLegible (.forLoop iterator iterable body)
  | jump {kind : Jump} {value : Option Expr} (h : ∀ e ∈ value, e.IsLegible) :
      IsLegible (.jump kind value)
  | assign {target : Expr} {indices : List Expr} {value : Expr} (htarget : target.IsLegible)
      (hindices : ∀ e ∈ indices, e.IsLegible) (hvalue : value.IsLegible) :
      IsLegible (.assign target indices value)
  | function {name : Expr} {parameters : List Parameter} {body : List Stmt}
      (hname : name.IsLegible) (hnames : ∀ p ∈ parameters, IsIdentifier p.name)
      (hdefaults : ∀ p ∈ parameters, ∀ e ∈ p.default?, e.IsLegible)
      (hbody : ∀ s ∈ body, IsLegible s) : IsLegible (.function name parameters body)

/-! ## What the first line says -/

/-- The name of the statement that a passage is, as far as its first line says. -/
def Passage.label : Passage → String
  | .line (.plain (.group .print _)) => "print"
  | .line (.plain (.group (.jump _) _)) => "jump"
  | .line (.assignment ..) => "assign"
  | .line _ => "expression"
  | .block ((.opener keyword _, _) :: _) => keyword
  | .block _ => "def"

/-- The name of a statement. -/
def Stmt.label : Stmt → String
  | expression _ => "expression"
  | print _ => "print"
  | choice .. => "if"
  | whileLoop .. => "while"
  | forLoop .. => "for"
  | jump .. => "jump"
  | assign .. => "assign"
  | function .. => "def"

theorem Stmt.IsLegible.label_passage {s : Stmt} (h : s.IsLegible) : s.passage.label = s.label := by
  cases h with
  | @expression e =>
    cases e with
    | constant c => cases c <;> rfl
    | _ => rfl
  | choice =>
    rw [passage_choice, branchSections_cons]
    rfl
  | _ => rfl

/-! ## Statements of one passage -/

theorem Expr.shown_map_eq {es es' : List Expr} (h : ∀ e ∈ es, e.IsLegible)
    (h' : ∀ e ∈ es', e.IsLegible) (heq : es.map form = es'.map form) :
    es.map shown = es'.map shown :=
  map_eq_of_map_eq (fun e he e' he' => (h e he).shown_eq (h' e' he')) heq

theorem Expr.shown_option_eq {e? e'? : Option Expr} (h : ∀ e ∈ e?, e.IsLegible)
    (h' : ∀ e ∈ e'?, e.IsLegible) (heq : e?.map form = e'?.map form) :
    e?.map shown = e'?.map shown := by
  cases e? with
  | none =>
    cases e'? with
    | none => rfl
    | some e' => cases heq
  | some e =>
    cases e'? with
    | none => cases heq
    | some e' =>
      rw [Option.map_some, Option.map_some, (h e rfl).shown_eq (h' e' rfl) (Option.some.inj heq)]

theorem Parameter.shown_eq {p p' : Parameter} (h : ∀ e ∈ p.default?, e.IsLegible)
    (h' : ∀ e ∈ p'.default?, e.IsLegible) (heq : p.form = p'.form) : p.shown = p'.shown := by
  obtain ⟨hname, hdefault⟩ := Prod.mk.inj heq
  rw [shown, shown, hname, Expr.shown_option_eq h h' hdefault]

/-- Is the section that of a branch behind the first one? -/
def isFurtherBranch (s : Heading × List Passage) : Bool :=
  match s.1 with
  | .opener keyword _ => keyword == "elif"
  | _ => false

theorem isFurtherBranch_of_mem_otherwiseSections (otherwise : Option (List Stmt)) :
    ∀ s ∈ (otherwiseSections otherwise).head?, isFurtherBranch s = false := by
  intro s hs
  cases otherwise with
  | none => cases hs
  | some body =>
    cases hs
    rfl

/-- Bodies in the section of what is done otherwise. -/
theorem shown_otherwise_eq {otherwise otherwise' : Option (List Stmt)}
    (h : ∀ body ∈ otherwise, ∀ body' ∈ otherwise',
      body.map Stmt.passage = body'.map Stmt.passage → body.map Stmt.shown = body'.map Stmt.shown)
    (heq : otherwiseSections otherwise = otherwiseSections otherwise') :
    otherwise.map shownBody = otherwise'.map shownBody := by
  cases otherwise with
  | none =>
    cases otherwise' with
    | none => rfl
    | some body' => cases heq
  | some body =>
    cases otherwise' with
    | none => cases heq
    | some body' =>
      simp only [otherwiseSections, List.cons.injEq, Prod.mk.injEq, true_and, and_true] at heq
      rw [Option.map_some, Option.map_some, shownBody_eq_map, shownBody_eq_map,
        h body rfl body' rfl heq]

/-- Choices of one passage are shown alike if their branches are, and what is done otherwise is.
The keyword of its section says whether a branch is the first one, a further one or none. -/
theorem Stmt.shown_choice_eq {b b' : Branch} {branches branches' : List Branch}
    {otherwise otherwise' : Option (List Stmt)}
    (hbranch : ∀ x ∈ b :: branches, ∀ x' ∈ b' :: branches', ∀ keyword,
      branchSection keyword x = branchSection keyword x' →
        (x.1.shown, x.2.map Stmt.shown) = (x'.1.shown, x'.2.map Stmt.shown))
    (hotherwise : ∀ body ∈ otherwise, ∀ body' ∈ otherwise',
      body.map Stmt.passage = body'.map Stmt.passage → body.map Stmt.shown = body'.map Stmt.shown)
    (heq : (choice (b :: branches) otherwise).passage
      = (choice (b' :: branches') otherwise').passage) :
    (choice (b :: branches) otherwise).shown = (choice (b' :: branches') otherwise').shown := by
  have further (branches : List Branch) :
      ∀ s ∈ branches.map (branchSection "elif"), isFurtherBranch s :=
    List.forall_mem_map.mpr fun _ _ => rfl
  rw [passage_choice, passage_choice, Passage.block.injEq, branchSections_cons,
    branchSections_cons, List.cons_append, List.cons_append, List.cons.injEq] at heq
  obtain ⟨hfirst, hrest⟩ := heq
  obtain ⟨hbranches, hlast⟩ := eq_of_run_append_eq (further _) (further _)
    (isFurtherBranch_of_mem_otherwiseSections _) (isFurtherBranch_of_mem_otherwiseSections _) hrest
  have hshown := map_eq_of_map_eq (fun x hx x' hx' => hbranch x (List.mem_cons_of_mem _ hx) x'
    (List.mem_cons_of_mem _ hx') "elif") hbranches
  rw [shown_choice, shown_choice, shownBranches_eq_map, shownBranches_eq_map, List.map_cons,
    List.map_cons, hshown, shown_otherwise_eq hotherwise hlast,
    hbranch b List.mem_cons_self b' List.mem_cons_self "if" hfirst]

/-- **Legible statements of one passage are shown alike.** -/
theorem Stmt.IsLegible.shown_eq {s s' : Stmt} (h : s.IsLegible) (h' : s'.IsLegible)
    (heq : s.passage = s'.passage) : s.shown = s'.shown := by
  have hlabel : s.label = s'.label := by
    rw [← h.label_passage, heq, h'.label_passage]
  have body_eq {body body' : List Stmt}
      (ih : ∀ s ∈ body, ∀ {s' : Stmt}, s'.IsLegible → s.passage = s'.passage →
        s.label = s'.label → s.shown = s'.shown)
      (hbody : ∀ s ∈ body, s.IsLegible) (hbody' : ∀ s ∈ body', s.IsLegible)
      (heq : body.map Stmt.passage = body'.map Stmt.passage) :
      body.map Stmt.shown = body'.map Stmt.shown := by
    refine map_eq_of_map_eq (fun s hs s' hs' heq => ih s hs (hbody' s' hs') heq ?_) heq
    rw [← (hbody s hs).label_passage, heq, (hbody' s' hs').label_passage]
  induction h generalizing s' with
  | expression he =>
    cases h' with
    | expression he' =>
      simp only [passage, Passage.line.injEq, Heading.plain.injEq] at heq
      rw [shown, shown, he.shown_eq he' heq]
    | _ => exact absurd hlabel (by simp [label])
  | print hes =>
    cases h' with
    | print hes' =>
      simp only [passage, Passage.line.injEq, Heading.plain.injEq, Form.group.injEq, true_and,
        formEach_eq_map] at heq
      rw [shown, shown, shownEach_eq_map, shownEach_eq_map, Expr.shown_map_eq hes hes' heq]
    | _ => exact absurd hlabel (by simp [label])
  | @choice b branches otherwise hconditions hbodies hotherwise ihbodies ihotherwise =>
    cases h' with
    | choice hconditions' hbodies' hotherwise' =>
      refine shown_choice_eq (fun x hx x' hx' keyword heq => ?_)
        (fun body hbody body' hbody' => body_eq (ihotherwise body hbody) (hotherwise body hbody)
          (hotherwise' body' hbody')) heq
      simp only [branchSection, Prod.mk.injEq, Heading.opener.injEq, List.cons.injEq, true_and,
        and_true] at heq
      rw [(hconditions x hx).shown_eq (hconditions' x' hx') heq.1,
        body_eq (ihbodies x hx) (hbodies x hx) (hbodies' x' hx') heq.2]
    | _ => exact absurd hlabel (by simp [label])
  | whileLoop hcondition hbody ih =>
    cases h' with
    | whileLoop hcondition' hbody' =>
      simp only [passage, Passage.block.injEq, List.cons.injEq, Prod.mk.injEq,
        Heading.opener.injEq, true_and, and_true, bodyPassages_eq_map] at heq
      rw [shown, shown, shownBody_eq_map, shownBody_eq_map, hcondition.shown_eq hcondition' heq.1,
        body_eq ih hbody hbody' heq.2]
    | _ => exact absurd hlabel (by simp [label])
  | forLoop hiterator hiterable hbody ih =>
    cases h' with
    | forLoop hiterator' hiterable' hbody' =>
      simp only [passage, Passage.block.injEq, List.cons.injEq, Prod.mk.injEq,
        Heading.opener.injEq, true_and, and_true, bodyPassages_eq_map] at heq
      rw [shown, shown, shownBody_eq_map, shownBody_eq_map,
        hiterator.shown_eq hiterator' heq.1.1, hiterable.shown_eq hiterable' heq.1.2,
        body_eq ih hbody hbody' heq.2]
    | _ => exact absurd hlabel (by simp [label])
  | @jump kind value hvalue =>
    cases h' with
    | jump hvalue' =>
      simp only [passage, Passage.line.injEq, Heading.plain.injEq, Form.group.injEq,
        Head.jump.injEq, ← Option.toList_map] at heq
      have hforms := congrArg List.head? heq.2
      rw [Option.head?_toList, Option.head?_toList] at hforms
      rw [shown, shown, heq.1, Expr.shown_option_eq hvalue hvalue' hforms]
    | _ => exact absurd hlabel (by simp [label])
  | assign htarget hindices hvalue =>
    cases h' with
    | assign htarget' hindices' hvalue' =>
      simp only [passage, Passage.line.injEq, Heading.assignment.injEq, formEach_eq_map] at heq
      obtain ⟨-, ht, hi, hv⟩ := heq
      rw [shown, shown, shownEach_eq_map, shownEach_eq_map, htarget.shown_eq htarget' ht,
        Expr.shown_map_eq hindices hindices' hi, hvalue.shown_eq hvalue' hv]
    | _ => exact absurd hlabel (by simp [label])
  | function hname _ hdefaults hbody ih =>
    cases h' with
    | function hname' _ hdefaults' hbody' =>
      simp only [passage, Passage.block.injEq, List.cons.injEq, Prod.mk.injEq,
        Heading.definition.injEq, and_true, bodyPassages_eq_map] at heq
      have hparameters := map_eq_of_map_eq (fun p hp p' hp' =>
        Parameter.shown_eq (hdefaults p hp) (hdefaults' p' hp')) heq.1.2
      rw [shown, shown, shownBody_eq_map, shownBody_eq_map, hname.shown_eq hname' heq.1.1,
        hparameters, body_eq ih hbody hbody' heq.2]
    | _ => exact absurd hlabel (by simp [label])

/-! ## Passages as lines -/

theorem isWritten_parameter {p : Parameter} (hname : IsIdentifier p.name)
    (hdefault : ∀ e ∈ p.default?, e.IsLegible) :
    (Form.word p.form.1).IsWritten ∧ ∀ f ∈ p.form.2, f.IsWritten := by
  refine ⟨isWritten_identifier hname, fun f hf => ?_⟩
  obtain ⟨e, he, rfl⟩ := Option.map_eq_some_iff.mp hf
  exact (hdefault e he).isWritten_form

theorem Expr.assignmentSymbol_mem (target : Expr) : target.assignmentSymbol ∈ ["=", ":="] := by
  rw [assignmentSymbol]
  split <;> decide

/-- A block of one section. -/
theorem Passage.isWritten_block_singleton {h : Heading} {body : List Passage} (hw : h.IsWritten)
    (hopens : h.opens) (hbody : ∀ p ∈ body, p.IsWritten) : (block [(h, body)]).IsWritten :=
  .block (List.cons_ne_nil _ _) (List.forall_mem_singleton.mpr hw)
    (List.forall_mem_singleton.mpr hopens) (List.forall_mem_singleton.mpr hbody)

/-- **The passage of a legible statement is written as passages are.** -/
theorem Stmt.IsLegible.isWritten_passage {s : Stmt} (h : s.IsLegible) : s.passage.IsWritten := by
  induction h with
  | expression he => exact .line (.plain he.isWritten_form) rfl
  | print hes =>
    rw [passage, formEach_eq_map]
    exact .line (.plain (.group (by decide)
      (List.forall_mem_map.mpr fun e he => (hes e he).isWritten_form))) rfl
  | @choice b branches otherwise hconditions _ _ ihbodies ihotherwise =>
    have hbranch (keyword : String) (hkeyword : keyword ∈ Heading.keywords) :
        ∀ x ∈ b :: branches, (branchSection keyword x).1.IsWritten
          ∧ (branchSection keyword x).1.opens ∧ ∀ p ∈ (branchSection keyword x).2, p.IsWritten := by
      intro x hx
      refine ⟨.opener hkeyword ?_, rfl, List.forall_mem_map.mpr (ihbodies x hx)⟩
      exact List.forall_mem_singleton.mpr (hconditions x hx).isWritten_form
    have hsections : ∀ s ∈ branchSections "if" (b :: branches) ++ otherwiseSections otherwise,
        s.1.IsWritten ∧ s.1.opens ∧ ∀ p ∈ s.2, p.IsWritten := by
      rw [branchSections_cons, List.forall_mem_append, List.forall_mem_cons, List.forall_mem_map]
      refine ⟨⟨hbranch "if" (by decide) b List.mem_cons_self, fun x hx =>
        hbranch "elif" (by decide) x (List.mem_cons_of_mem _ hx)⟩, fun s hs => ?_⟩
      cases otherwise with
      | none => cases hs
      | some body =>
        rw [List.mem_singleton.mp hs]
        exact ⟨.opener (by decide) nofun, rfl, List.forall_mem_map.mpr (ihotherwise body rfl)⟩
    rw [passage_choice]
    exact .block (by rw [branchSections_cons]; exact List.cons_ne_nil _ _)
      (fun s hs => (hsections s hs).1) (fun s hs => (hsections s hs).2.1)
      (fun s hs => (hsections s hs).2.2)
  | whileLoop hcondition _ ih =>
    rw [passage, bodyPassages_eq_map]
    refine Passage.isWritten_block_singleton (.opener (by decide) ?_) rfl
      (List.forall_mem_map.mpr ih)
    exact List.forall_mem_singleton.mpr hcondition.isWritten_form
  | forLoop hiterator hiterable _ ih =>
    rw [passage, bodyPassages_eq_map]
    refine Passage.isWritten_block_singleton (.opener (by decide) ?_) rfl
      (List.forall_mem_map.mpr ih)
    exact List.forall_mem_cons.mpr ⟨hiterator.isWritten_form, List.forall_mem_cons.mpr
      ⟨Form.isWritten_word (by decide), List.forall_mem_singleton.mpr hiterable.isWritten_form⟩⟩
  | @jump kind value hvalue =>
    have hhead : ∀ kind : Jump, Head.jump kind ∈ Head.all := by
      intro kind
      cases kind <;> decide
    refine .line (.plain (.group (hhead kind) (List.forall_mem_map.mpr fun e he => ?_))) rfl
    exact (hvalue e (Option.mem_toList.mp he)).isWritten_form
  | @assign target indices value htarget hindices hvalue =>
    rw [passage, formEach_eq_map]
    exact .line (.assignment target.assignmentSymbol_mem htarget.isWritten_form
      (List.forall_mem_map.mpr fun e he => (hindices e he).isWritten_form) hvalue.isWritten_form)
      rfl
  | function hname hnames hdefaults _ ih =>
    rw [passage, bodyPassages_eq_map]
    refine Passage.isWritten_block_singleton (.definition hname.isWritten_form
      (List.forall_mem_map.mpr fun p hp => ?_) (List.forall_mem_map.mpr fun p hp => ?_)) rfl
      (List.forall_mem_map.mpr ih)
    · exact (isWritten_parameter (hnames p hp) (hdefaults p hp)).1
    · exact (isWritten_parameter (hnames p hp) (hdefaults p hp)).2

end ScriptReader

import ScriptReader.Proofs.Expr.Targets
import ScriptReader.Proofs.Expr.WellFormed
import ScriptReader.Proofs.Source.Draft

/-!
# Proofs/Script/Each — the expressions of a statement, and how each is looked up

`Stmt.Each E` says what a statement consists of, and that each of its expressions has the property
`E` with the look-up that its place in the statement asks for.  If `E` holds of whatever is read
from a phrase of a text, then every line makes such a statement, or an opening that such a body
completes (`Phrase.each_readLine`).
-/

namespace ScriptReader

/-- What holds of a value holds of all that there is of it. -/
theorem forall_mem_some {α : Type} {P : α → Prop} {a : α} (h : P a) : ∀ b ∈ some a, P b := by
  intro b hb
  cases hb
  exact h

/-- Whatever is asked of a value holds of all that there is of none. -/
theorem forall_mem_none {α : Type} {P : α → Prop} : ∀ b ∈ (none : Option α), P b := nofun

/-! ## Statements -/

/-- **Each expression of the statement has the property** with the look-up of its place. -/
inductive Stmt.Each (E : Lookup → Expr → Prop) : Stmt → Prop
  | expression {e : Expr} (h : E .value e) : Each E (.expression e)
  | print {arguments : List Expr} (h : ∀ e ∈ arguments, E .value e) : Each E (.print arguments)
  /-- A choice has a branch. -/
  | choice {b : Branch} {branches : List Branch} {otherwise : Option (List Stmt)}
      (hconditions : ∀ x ∈ b :: branches, E .value x.1)
      (hbodies : ∀ x ∈ b :: branches, ∀ s ∈ x.2, Each E s)
      (hotherwise : ∀ body ∈ otherwise, ∀ s ∈ body, Each E s) :
      Each E (.choice (b :: branches) otherwise)
  | whileLoop {condition : Expr} {body : List Stmt} (hcondition : E .value condition)
      (hbody : ∀ s ∈ body, Each E s) : Each E (.whileLoop condition body)
  | forLoop {iterator iterable : Expr} {body : List Stmt} (hplace : iterator.IsPlace)
      (hiterator : E .binding iterator) (hiterable : E .value iterable)
      (hbody : ∀ s ∈ body, Each E s) : Each E (.forLoop iterator iterable body)
  /-- `continue` has no value. -/
  | jump {kind : Jump} {value : Option Expr} (hcontinue : kind = .continueLoop → value = none)
      (h : ∀ e ∈ value, E .value e) : Each E (.jump kind value)
  | assign {lookup : Lookup} {target : Expr} {indices : List Expr} {value : Expr}
      (hlookup : lookup = .binding ∨ lookup = .rebinding) (hplace : target.IsPlace)
      (htarget : E lookup target) (hindices : ∀ e ∈ indices, E .value e)
      (hvalue : E .value value) : Each E (.assign target indices value)
  /-- A function is given a name that is not in scope yet. -/
  | function {identifier : String} {parameters : List Parameter} {body : List Stmt}
      (hname : E .definition (.name identifier .definition))
      (hnames : ∀ p ∈ parameters, IsIdentifier p.name)
      (hdefaults : ∀ p ∈ parameters, ∀ e ∈ p.default?, E .value e)
      (hbody : ∀ s ∈ body, Each E s) :
      Each E (.function (.name identifier .definition) parameters body)

/-- What the opening opens is such a statement if its body consists of such statements. -/
inductive Opening.Each (E : Lookup → Expr → Prop) : Opening → Prop
  | whileLoop {condition : Expr} (hcondition : E .value condition) :
      Each E (.whileLoop condition)
  | forLoop {iterator iterable : Expr} (hplace : iterator.IsPlace)
      (hiterator : E .binding iterator) (hiterable : E .value iterable) :
      Each E (.forLoop iterator iterable)
  | function {identifier : String} {parameters : List Parameter}
      (hname : E .definition (.name identifier .definition))
      (hnames : ∀ p ∈ parameters, IsIdentifier p.name)
      (hdefaults : ∀ p ∈ parameters, ∀ e ∈ p.default?, E .value e) :
      Each E (.function (.name identifier .definition) parameters)

theorem Opening.Each.close {E : Lookup → Expr → Prop} {o : Opening} {body : List Stmt}
    (h : o.Each E) (hbody : ∀ s ∈ body, s.Each E) : (o.close body).Each E := by
  cases h with
  | whileLoop hcondition => exact .whileLoop hcondition hbody
  | forLoop hplace hiterator hiterable => exact .forLoop hplace hiterator hiterable hbody
  | function hname hnames hdefaults => exact .function hname hnames hdefaults hbody

/-- What a line makes has the property that goes with it. -/
inductive Line.Has (C : Expr → Prop) (O : Opening → Prop) (S : Stmt → Prop) : Line → Prop
  | complete {s : Stmt} (h : S s) : Has C O S (.complete s)
  | opening {o : Opening} (h : O o) (body : Option Phrase) : Has C O S (.opening o body)
  | choice {condition : Expr} (h : C condition) (body : Option Phrase) :
      Has C O S (.choice condition body)

/-! ## Headers -/

/-- What is bound or assigned to is a place. -/
theorem Expr.isPlace_readTarget {p : Phrase} {lookup : Lookup} :
    Yields IsPlace (readTarget p lookup) := by
  intro e h
  obtain ⟨hread, htarget⟩ := readTarget_eq_ok_iff.mp h
  cases writesTarget_of_read hread htarget with
  | word => exact .inl ⟨_, _, rfl⟩
  | access => exact .inr ⟨_, _, rfl⟩

namespace Phrase

variable {Part : Phrase → Prop} {E : Lookup → Expr → Prop} {p : Phrase}
  (hpart : AreParts Part)
  (hread : ∀ {p : Phrase}, Part p → ∀ lookup, Yields (E lookup) (Expr.read p lookup))
  (hp : Part p)
include hpart hread hp

omit hpart in
theorem each_readTarget (lookup : Lookup) :
    Yields (fun e => E lookup e ∧ e.IsPlace) (Expr.readTarget p lookup) := fun e h =>
  ⟨hread hp lookup e (Expr.readTarget_eq_ok_iff.mp h).1, Expr.isPlace_readTarget e h⟩

theorem each_readCondition : Yields (E .value) p.readCondition := by
  have hheader : Yields (fun condition => ∀ c ∈ condition, E .value c)
      (p.readHeader .condition) := by
    rw [readHeader]
    split
    · exact .refuse
    · exact (hread (hpart.slice hp _ _) _).map fun c hc => forall_mem_some hc
  refine hheader.bind fun condition hcondition => ?_
  split
  · next c => exact .ok (hcondition c rfl)
  · exact .refuse

theorem each_readForHeader : Yields (Opening.Each E) p.readForHeader := by
  have hheader : Part (p.take p.headerEnd) := hpart.slice hp _ _
  rw [readForHeader]
  dsimp only
  split
  · exact .refuse
  split
  · exact .refuse
  · refine (each_readTarget hread (hpart.slice hheader _ _) _).bind fun iterator hiterator => ?_
    exact (hread (hpart.slice hheader _ _) _).bind
      fun iterable hiterable => .ok (.forLoop hiterator.2 hiterator.1 hiterable)

/-- The name of a parameter is a word of the header. -/
theorem each_readParameter (all : Phrase) :
    Yields (fun parameter => IsIdentifier parameter.name ∧ ∀ e ∈ parameter.default?, E .value e)
      (all.readParameter p) := by
  have hword : ∀ t ∈ p.tokens, t.kind = .identifier → IsIdentifier t.text := fun t ht hkind =>
    isIdentifier_of_isLexeme (hpart.isScanned hp t ht) hkind
  unfold readParameter
  split
  · next t htokens =>
    split
    · next hkind => exact .ok ⟨hword t (by simp [htokens]) hkind, forall_mem_none⟩
    · exact .refuse
  · next t _ _ _ htokens =>
    split
    · next hkind =>
      have hname := hword t (by simp [htokens]) hkind.1
      exact (hread (hpart.slice hp _ _) _).map fun e he => ⟨hname, forall_mem_some he⟩
    · exact .refuse
  · exact .refuse

theorem each_readFunctionHeader : Yields (Opening.Each E) p.readFunctionHeader := by
  rw [readFunctionHeader]
  split
  · exact .refuse
  · next pos _ =>
    intro o ho
    obtain ⟨name, hname, ho⟩ := Expr.exists_of_bind_ok ho
    dsimp only at ho
    split at ho
    · cases ho
    · next hidentifier =>
      obtain ⟨last, -, ho⟩ := Expr.exists_of_bind_ok ho
      have hall : Part (p.slice (pos + 1) last) := hpart.slice hp _ _
      obtain ⟨parameters, hparameters, ho⟩ := Expr.exists_of_bind_ok ho
      obtain ⟨identifier, rfl⟩ := Expr.eq_name_of_readTarget hname hidentifier
      cases ho
      have hnamed := (each_readTarget hread (hpart.slice hp _ _) _ _ hname).1
      have heach := Yields.mapM (fun q hq =>
        each_readParameter hpart hread (hpart.segment hall hq) _) parameters hparameters
      exact .function hnamed (fun q hq => (heach q hq).1) fun q hq => (heach q hq).2

/-! ## Lines -/

theorem each_readJump (kind : Jump) : Yields (Stmt.Each E) (p.readJump kind) := by
  rw [readJump]
  split
  · exact .ok (.jump (fun _ => rfl) forall_mem_none)
  split
  · exact .refuse
  · next hkind =>
    refine (hread (hpart.slice hp _ _) _).map fun e he => ?_
    exact .jump (fun hcontinue => absurd hcontinue hkind) (forall_mem_some he)

theorem each_readIndices {last : Nat} {later : List Expr} (hlater : ∀ e ∈ later, E .value e) :
    Yields (fun read => ∀ e ∈ read.2, E .value e) (p.readIndices last later) := by
  fun_induction readIndices p last later with
  | case1 => exact .error
  | case2 => exact .error
  | case3 last later _ first _ _ index hindex ih =>
    exact ih (List.forall_mem_cons.mpr ⟨hread (hpart.slice hp _ _) _ index hindex, hlater⟩)
  | case4 => exact .ok hlater

theorem each_readAssignment : Yields (Stmt.Each E) p.readAssignment := by
  rw [readAssignment]
  split
  · next pos lookup hassignment =>
    have hlookup : lookup = .binding ∨ lookup = .rebinding := by
      unfold assignment? at hassignment
      split at hassignment
      · cases hassignment
        exact .inl rfl
      · obtain ⟨_, -, heq⟩ := Option.map_eq_some_iff.mp hassignment
        cases heq
        exact .inr rfl
    rw [readAssignmentAt]
    dsimp only
    split
    · exact .refuse
    · refine (each_readIndices hpart hread hp (List.forall_mem_nil _)).bind
        fun read hindices => ?_
      refine (each_readTarget hread (hpart.slice hp _ _) _).bind fun target htarget => ?_
      obtain ⟨htarget, hplace⟩ := htarget
      exact (hread (hpart.slice hp _ _) _).bind
        fun value hvalue => .ok (.assign hlookup hplace htarget hindices hvalue)
  · exact .refuse

/-- **Every line makes a statement each of whose expressions has the property**, or an opening of
one. -/
theorem each_readLine :
    Yields (Line.Has (E .value) (Opening.Each E) (Stmt.Each E)) (Line.read p) := by
  unfold Line.read
  split
  · exact (each_readCondition hpart hread hp).map fun c hc => .choice hc _
  · exact (each_readCondition hpart hread hp).map fun c hc => .opening (.whileLoop hc) _
  · exact (each_readForHeader hpart hread hp).map fun o ho => .opening ho _
  · exact (each_readFunctionHeader hpart hread hp).map fun o ho => .opening ho _
  · exact (each_readJump hpart hread hp _).map fun s hs => .complete hs
  · exact (each_readJump hpart hread hp _).map fun s hs => .complete hs
  · exact (each_readJump hpart hread hp _).map fun s hs => .complete hs
  · have hdrop : Part (p.drop 1) := hpart.slice hp _ _
    refine Yields.map (Yields.mapM fun q hq => ?_) fun es hes => .complete (.print hes)
    exact hread (hpart.segment hdrop hq) _
  · split
    · exact (each_readAssignment hpart hread hp).map fun s hs => .complete hs
    · exact (hread hp _).map fun e he => .complete (.expression he)

end Phrase

end ScriptReader

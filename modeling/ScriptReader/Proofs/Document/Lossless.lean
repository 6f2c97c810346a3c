import ScriptReader.Proofs.Document.Compact
import ScriptReader.Tree.Document

/-!
# Proofs/Document/Lossless — a tree is known from its document

Every form of a tree has a tag of its own in documents, and every part of it a field; flags,
operators and functions are known by their labels (`Lookup.label_inj`, `Operator.label_inj`).  So
trees with finite numbers that make one document are the same, and as a document is known from its
text, so are trees with one text (`Script.document_lossless`).
-/

namespace ScriptReader

open Document

/-! ## Labels -/

theorem Operator.label_inj {op op' : Operator} (h : op.label = op'.label) : op = op' := by
  have hread (op : Operator) : ofLabel? op.label = some op := by cases op <;> rfl
  exact Option.some.inj ((hread op).symm.trans ((congrArg ofLabel? h).trans (hread op')))

theorem BuiltIn.label_inj {f f' : BuiltIn} (h : f.label = f'.label) : f = f' := by
  cases f <;> cases f' <;> first | rfl | exact absurd h (by decide)

theorem Jump.label_inj {j j' : Jump} (h : j.label = j'.label) : j = j' := by
  cases j <;> cases j' <;> first | rfl | exact absurd h (by decide)

theorem Lookup.label_inj {l l' : Lookup} (h : l.label = l'.label) : l = l' := by
  have hlabels : ∀ a b c d e a' b' c' d' e' : Bool,
      label ⟨a, b, c, d, e⟩ = label ⟨a', b', c', d', e'⟩ →
        (⟨a, b, c, d, e⟩ : Lookup) = ⟨a', b', c', d', e'⟩ := by decide +kernel
  exact hlabels _ _ _ _ _ _ _ _ _ _ h

/-! ## Finite trees -/

/-- The numbers of an expression are finite. -/
inductive Expr.IsFinite : Expr → Prop
  | constant {c : Constant} (hc : ∀ x, c = .number x → x.isFinite) : IsFinite (.constant c)
  | name (identifier : String) (lookup : Lookup) : IsFinite (.name identifier lookup)
  | array {items : List Expr} (hitems : ∀ e ∈ items, IsFinite e) : IsFinite (.array items)
  | dictionary {entries : List (Expr × Expr)} (hkeys : ∀ entry ∈ entries, IsFinite entry.1)
      (hvalues : ∀ entry ∈ entries, IsFinite entry.2) : IsFinite (.dictionary entries)
  | unary {op : Operator} {operand : Expr} (h : IsFinite operand) : IsFinite (.unary op operand)
  | binary {op : Operator} {left right : Expr} (hleft : IsFinite left) (hright : IsFinite right) :
      IsFinite (.binary op left right)
  | call {callee : Expr} {arguments : List Expr} (hcallee : IsFinite callee)
      (harguments : ∀ e ∈ arguments, IsFinite e) : IsFinite (.call callee arguments)
  | builtIn {function : BuiltIn} {arguments : List Expr}
      (harguments : ∀ e ∈ arguments, IsFinite e) : IsFinite (.builtIn function arguments)

/-- The numbers of a statement are finite. -/
inductive Stmt.IsFinite : Stmt → Prop
  | expression {e : Expr} (h : e.IsFinite) : IsFinite (.expression e)
  | print {arguments : List Expr} (h : ∀ e ∈ arguments, e.IsFinite) : IsFinite (.print arguments)
  | choice {branches : List Branch} {otherwise : Option (List Stmt)}
      (hconditions : ∀ b ∈ branches, b.1.IsFinite)
      (hbodies : ∀ b ∈ branches, ∀ s ∈ b.2, IsFinite s)
      (hotherwise : ∀ body ∈ otherwise, ∀ s ∈ body, IsFinite s) :
      IsFinite (.choice branches otherwise)
  | whileLoop {condition : Expr} {body : List Stmt} (hcondition : condition.IsFinite)
      (hbody : ∀ s ∈ body, IsFinite s) : IsFinite (.whileLoop condition body)
  | forLoop {iterator iterable : Expr} {body : List Stmt} (hiterator : iterator.IsFinite)
      (hiterable : iterable.IsFinite) (hbody : ∀ s ∈ body, IsFinite s) :
      IsFinite (.forLoop iterator iterable body)
  | jump {kind : Jump} {value : Option Expr} (hvalue : ∀ e ∈ value, e.IsFinite) :
      IsFinite (.jump kind value)
  | assign {target : Expr} {indices : List Expr} {value : Expr} (htarget : target.IsFinite)
      (hindices : ∀ e ∈ indices, e.IsFinite) (hvalue : value.IsFinite) :
      IsFinite (.assign target indices value)
  | function {name : Expr} {parameters : List Parameter} {body : List Stmt} (hname : name.IsFinite)
      (hparameters : ∀ p ∈ parameters, ∀ e ∈ p.default?, e.IsFinite)
      (hbody : ∀ s ∈ body, IsFinite s) : IsFinite (.function name parameters body)

/-! ## Expressions -/

theorem documents_eq_map (es : List Expr) : documents es = es.map Expr.document := by
  induction es with
  | nil => rw [documents]; rfl
  | cons e es ih => rw [documents, ih]; rfl

theorem entryDocuments_eq_map (entries : List (Expr × Expr)) :
    entryDocuments entries
      = entries.map fun entry => .list [entry.1.document, entry.2.document] := by
  induction entries with
  | nil => rw [entryDocuments]; rfl
  | cons entry entries ih =>
    obtain ⟨key, value⟩ := entry
    rw [entryDocuments, ih]
    rfl

/-- Lists are the same if what is made of their items is, and tells the items apart. -/
theorem eq_of_map_eq {α β : Type} {f : α → β} {as as' : List α}
    (hf : ∀ a ∈ as, ∀ a' ∈ as', f a = f a' → a = a') (h : as.map f = as'.map f) : as = as' := by
  rw [← List.map_id as, ← List.map_id as']
  exact map_eq_of_map_eq hf h

theorem Constant.eq_of_document_eq {c c' : Constant} (h : ∀ x, c = .number x → x.isFinite)
    (h' : ∀ x, c' = .number x → x.isFinite) (heq : c.document = c'.document) : c = c' := by
  have hnumber {x y : Binary64} (hx : x.isFinite) (hy : y.isFinite)
      (heq : x.document = y.document) : x = y := by
    rw [Binary64.document, Binary64.document, if_pos hx, if_pos hy] at heq
    exact Binary64.eq_of_documentText hx hy (Document.number.inj heq)
  rcases c with _ | (_ | _) | x | t <;> rcases c' with _ | (_ | _) | y | u <;>
    simp only [document, tagged, Document.text.injEq, Document.record.injEq, List.cons.injEq,
      Prod.mk.injEq, and_true, String.reduceEq, false_and, reduceCtorEq] at heq
  case none.none | boolean.false.boolean.false | boolean.true.boolean.true => rfl
  case number.number => rw [hnumber (h x rfl) (h' y rfl) heq.2]
  case text.text => rw [heq.2]

theorem Expr.document_ne_null (e : Expr) : e.document ≠ .null := by
  cases e <;> simp [document, tagged]

/-- Records are the same if their values are, one by one. -/
theorem tagged_inj {tag tag' : String} {d d' : Document} :
    tagged tag d = tagged tag' d' ↔ tag = tag' ∧ d = d' := by simp [tagged]

/-- **An expression with finite numbers is known from its document.** -/
theorem Expr.IsFinite.eq_of_document_eq {e e' : Expr} (h : e.IsFinite) (h' : e'.IsFinite)
    (heq : e.document = e'.document) : e = e' := by
  have arguments_eq {es es' : List Expr}
      (ih : ∀ e ∈ es, ∀ {e' : Expr}, e'.IsFinite → e.document = e'.document → e = e')
      (hes' : ∀ e ∈ es', e.IsFinite) (heq : es.map Expr.document = es'.map Expr.document) :
      es = es' :=
    eq_of_map_eq (fun a ha a' ha' => ih a ha (hes' a' ha')) heq
  induction h generalizing e' with
  | constant hc =>
    cases h' with
    | constant hc' =>
      simp only [document, tagged_inj, true_and] at heq
      rw [Constant.eq_of_document_eq hc hc' heq]
    | _ => simp [document, tagged_inj] at heq
  | name identifier lookup =>
    cases h' with
    | name identifier' lookup' =>
      simp only [document, tagged_inj, Document.record.injEq, List.cons.injEq, Prod.mk.injEq,
        Document.text.injEq, true_and, and_true] at heq
      rw [heq.1, Lookup.label_inj heq.2]
    | _ => simp [document, tagged_inj] at heq
  | array hitems ih =>
    cases h' with
    | array hitems' =>
      simp only [document, tagged_inj, Document.list.injEq, documents_eq_map, true_and] at heq
      rw [arguments_eq ih hitems' heq]
    | _ => simp [document, tagged_inj] at heq
  | dictionary hkeys hvalues ihkeys ihvalues =>
    cases h' with
    | dictionary hkeys' hvalues' =>
      simp only [document, tagged_inj, Document.list.injEq, entryDocuments_eq_map, true_and] at heq
      refine congrArg Expr.dictionary (eq_of_map_eq (fun a ha a' ha' hentry => ?_) heq)
      simp only [Document.list.injEq, List.cons.injEq, and_true] at hentry
      exact Prod.ext (ihkeys a ha (hkeys' a' ha') hentry.1)
        (ihvalues a ha (hvalues' a' ha') hentry.2)
    | _ => simp [document, tagged_inj] at heq
  | @unary op operand _ ih =>
    cases h' with
    | unary h' =>
      simp only [document, tagged_inj, Document.record.injEq, List.cons.injEq, Prod.mk.injEq,
        Document.text.injEq, true_and, and_true] at heq
      rw [Operator.label_inj heq.1, ih h' heq.2]
    | @binary op' left right =>
      simp only [document, tagged_inj, Document.record.injEq, List.cons.injEq, Prod.mk.injEq,
        true_and, and_true] at heq
      exact absurd heq.2.1.symm left.document_ne_null
    | _ => simp [document, tagged_inj] at heq
  | @binary op left right _ _ ihleft ihright =>
    cases h' with
    | unary h' =>
      simp only [document, tagged_inj, Document.record.injEq, List.cons.injEq, Prod.mk.injEq,
        true_and, and_true] at heq
      exact absurd heq.2.1 left.document_ne_null
    | binary hleft' hright' =>
      simp only [document, tagged_inj, Document.record.injEq, List.cons.injEq, Prod.mk.injEq,
        Document.text.injEq, true_and, and_true] at heq
      rw [Operator.label_inj heq.1, ihleft hleft' heq.2.1, ihright hright' heq.2.2]
    | _ => simp [document, tagged_inj] at heq
  | call hcallee harguments ihcallee iharguments =>
    cases h' with
    | call hcallee' harguments' =>
      simp only [document, tagged_inj, Document.record.injEq, List.cons.injEq, Prod.mk.injEq,
        Document.list.injEq, documents_eq_map, true_and, and_true] at heq
      rw [ihcallee hcallee' heq.1, arguments_eq iharguments harguments' heq.2]
    | _ => simp [document, tagged_inj] at heq
  | builtIn harguments ih =>
    cases h' with
    | builtIn harguments' =>
      simp only [document, tagged_inj, Document.record.injEq, List.cons.injEq, Prod.mk.injEq,
        Document.text.injEq, Document.list.injEq, documents_eq_map, true_and, and_true] at heq
      rw [BuiltIn.label_inj heq.1, arguments_eq ih harguments' heq.2]
    | _ => simp [document, tagged_inj] at heq

/-! ## Statements -/

theorem bodyDocuments_eq_map (body : List Stmt) : bodyDocuments body = body.map Stmt.document := by
  induction body with
  | nil => rw [bodyDocuments]; rfl
  | cons s body ih => rw [bodyDocuments, ih]; rfl

theorem branchDocuments_eq_map (branches : List Branch) :
    branchDocuments branches = branches.map fun b =>
      .record [("condition", b.1.document), ("compound", .list (b.2.map Stmt.document))] := by
  induction branches with
  | nil => rw [branchDocuments]; rfl
  | cons b branches ih =>
    obtain ⟨condition, body⟩ := b
    rw [branchDocuments, ih, bodyDocuments_eq_map]
    rfl

/-- What is done if no condition holds, as a document. -/
def otherwiseDocument : Option (List Stmt) → Document
  | none => .null
  | some body => .list (body.map Stmt.document)

theorem Stmt.document_choice (branches : List Branch) (otherwise : Option (List Stmt)) :
    (Stmt.choice branches otherwise).document = tagged "If" (.record
      [("branches", .list (branchDocuments branches)),
        ("else_compound", otherwiseDocument otherwise)]) := by
  cases otherwise with
  | none => rw [document]; rfl
  | some body => rw [document, bodyDocuments_eq_map]; rfl

/-- The tag of a statement in documents. -/
def Stmt.tag : Stmt → String
  | expression _ => "Expression"
  | print _ => "Print"
  | choice .. => "If"
  | whileLoop .. => "While"
  | forLoop .. => "For"
  | jump .. => "Jump"
  | assign .. => "Assign"
  | function .. => "Function"

theorem Stmt.exists_tagged (s : Stmt) : ∃ d, s.document = tagged s.tag d := by
  cases s with
  | choice branches otherwise => exact ⟨_, document_choice branches otherwise⟩
  | _ => exact ⟨_, by rw [document, tag]⟩

theorem Stmt.tag_eq {s s' : Stmt} (heq : s.document = s'.document) : s.tag = s'.tag := by
  obtain ⟨d, hd⟩ := s.exists_tagged
  obtain ⟨d', hd'⟩ := s'.exists_tagged
  exact (tagged_inj.mp (hd.symm.trans (heq.trans hd'))).1

theorem eq_of_optionalDocument_eq {e? e'? : Option Expr} (h : ∀ e ∈ e?, e.IsFinite)
    (h' : ∀ e ∈ e'?, e.IsFinite) (heq : optionalDocument e? = optionalDocument e'?) :
    e? = e'? := by
  cases e? with
  | none =>
    cases e'? with
    | none => rfl
    | some e' => exact absurd heq.symm e'.document_ne_null
  | some e =>
    cases e'? with
    | none => exact absurd heq e.document_ne_null
    | some e' => rw [(h e rfl).eq_of_document_eq (h' e' rfl) heq]

theorem Parameter.eq_of_document_eq {p p' : Parameter} (h : ∀ e ∈ p.default?, e.IsFinite)
    (h' : ∀ e ∈ p'.default?, e.IsFinite) (heq : p.document = p'.document) : p = p' := by
  simp only [document, Document.record.injEq, List.cons.injEq, Prod.mk.injEq, Document.text.injEq,
    true_and, and_true] at heq
  have hdefault := eq_of_optionalDocument_eq h h' heq.2
  cases p
  cases p'
  rw [Parameter.mk.injEq]
  exact ⟨heq.1, hdefault⟩

/-- **A statement with finite numbers is known from its document.** -/
theorem Stmt.IsFinite.eq_of_document_eq {s s' : Stmt} (h : s.IsFinite) (h' : s'.IsFinite)
    (heq : s.document = s'.document) : s = s' := by
  have exprs_eq {es es' : List Expr} (hes : ∀ e ∈ es, e.IsFinite) (hes' : ∀ e ∈ es', e.IsFinite)
      (heq : es.map Expr.document = es'.map Expr.document) : es = es' :=
    eq_of_map_eq (fun a ha a' ha' => (hes a ha).eq_of_document_eq (hes' a' ha')) heq
  have body_eq {body body' : List Stmt}
      (ih : ∀ s ∈ body, ∀ {s' : Stmt}, s'.IsFinite → s.document = s'.document → s = s')
      (hbody' : ∀ s ∈ body', s.IsFinite)
      (heq : body.map Stmt.document = body'.map Stmt.document) : body = body' :=
    eq_of_map_eq (fun a ha a' ha' => ih a ha (hbody' a' ha')) heq
  induction h generalizing s' with
  | expression he =>
    cases h' with
    | expression he' =>
      simp only [document, tagged_inj, true_and] at heq
      rw [he.eq_of_document_eq he' heq]
    | _ => exact absurd (tag_eq heq) (by simp [tag])
  | print harguments =>
    cases h' with
    | print harguments' =>
      simp only [document, tagged_inj, Document.list.injEq, documents_eq_map, true_and] at heq
      rw [exprs_eq harguments harguments' heq]
    | _ => exact absurd (tag_eq heq) (by simp [tag])
  | @choice branches otherwise hconditions hbodies hotherwise ihbodies ihotherwise =>
    cases h' with
    | @choice branches' otherwise' hconditions' hbodies' hotherwise' =>
      simp only [document_choice, tagged_inj, Document.record.injEq, List.cons.injEq,
        Prod.mk.injEq, Document.list.injEq, branchDocuments_eq_map, true_and, and_true] at heq
      have hbranches : branches = branches' := by
        refine eq_of_map_eq (fun b hb b' hb' hbranch => ?_) heq.1
        simp only [Document.record.injEq, List.cons.injEq, Prod.mk.injEq, Document.list.injEq,
          true_and, and_true] at hbranch
        exact Prod.ext ((hconditions b hb).eq_of_document_eq (hconditions' b' hb') hbranch.1)
          (body_eq (ihbodies b hb) (hbodies' b' hb') hbranch.2)
      have hrest : otherwise = otherwise' := by
        have heq := heq.2
        cases otherwise with
        | none =>
          cases otherwise' with
          | none => rfl
          | some body' => cases heq
        | some body =>
          cases otherwise' with
          | none => cases heq
          | some body' =>
            rw [body_eq (ihotherwise body rfl) (hotherwise' body' rfl) (Document.list.inj heq)]
      rw [hbranches, hrest]
    | _ => exact absurd (tag_eq heq) (by simp [tag])
  | whileLoop hcondition hbody ih =>
    cases h' with
    | whileLoop hcondition' hbody' =>
      simp only [document, tagged_inj, Document.record.injEq, List.cons.injEq, Prod.mk.injEq,
        Document.list.injEq, bodyDocuments_eq_map, true_and, and_true] at heq
      rw [hcondition.eq_of_document_eq hcondition' heq.1, body_eq ih hbody' heq.2]
    | _ => exact absurd (tag_eq heq) (by simp [tag])
  | forLoop hiterator hiterable hbody ih =>
    cases h' with
    | forLoop hiterator' hiterable' hbody' =>
      simp only [document, tagged_inj, Document.record.injEq, List.cons.injEq, Prod.mk.injEq,
        Document.list.injEq, bodyDocuments_eq_map, true_and, and_true] at heq
      rw [hiterator.eq_of_document_eq hiterator' heq.1,
        hiterable.eq_of_document_eq hiterable' heq.2.1, body_eq ih hbody' heq.2.2]
    | _ => exact absurd (tag_eq heq) (by simp [tag])
  | jump hvalue =>
    cases h' with
    | jump hvalue' =>
      simp only [document, tagged_inj, Document.record.injEq, List.cons.injEq, Prod.mk.injEq,
        Document.text.injEq, true_and, and_true] at heq
      rw [Jump.label_inj heq.1, eq_of_optionalDocument_eq hvalue hvalue' heq.2]
    | _ => exact absurd (tag_eq heq) (by simp [tag])
  | assign htarget hindices hvalue =>
    cases h' with
    | assign htarget' hindices' hvalue' =>
      simp only [document, tagged_inj, Document.record.injEq, List.cons.injEq, Prod.mk.injEq,
        Document.list.injEq, documents_eq_map, true_and, and_true] at heq
      rw [htarget.eq_of_document_eq htarget' heq.1, exprs_eq hindices hindices' heq.2.1,
        hvalue.eq_of_document_eq hvalue' heq.2.2]
    | _ => exact absurd (tag_eq heq) (by simp [tag])
  | function hname hparameters hbody ih =>
    cases h' with
    | function hname' hparameters' hbody' =>
      simp only [document, tagged_inj, Document.record.injEq, List.cons.injEq, Prod.mk.injEq,
        Document.list.injEq, bodyDocuments_eq_map, true_and, and_true] at heq
      have hparameters_eq := eq_of_map_eq (fun p hp p' hp' =>
        Parameter.eq_of_document_eq (hparameters p hp) (hparameters' p' hp')) heq.2.1
      rw [hname.eq_of_document_eq hname' heq.1, hparameters_eq, body_eq ih hbody' heq.2.2]
    | _ => exact absurd (tag_eq heq) (by simp [tag])

/-! ## Documents of finite trees -/

theorem isWritten_record {fields : List (String × Document)}
    (h : ∀ d ∈ fields.map Prod.snd, d.IsWritten) : (Document.record fields).IsWritten :=
  .record fun f hf => h f.2 (List.mem_map_of_mem hf)

theorem isWritten_tagged {tag : String} {d : Document} (h : d.IsWritten) :
    (tagged tag d).IsWritten :=
  isWritten_record (List.forall_mem_singleton.mpr h)

theorem isWritten_map {α : Type} {f : α → Document} {as : List α}
    (h : ∀ a ∈ as, (f a).IsWritten) : (Document.list (as.map f)).IsWritten :=
  .list (List.forall_mem_map.mpr h)

/-- A finite number is written as a number. -/
theorem Binary64.isWritten_document {x : Binary64} (hx : x.isFinite) : x.document.IsWritten := by
  obtain ⟨c, rest, htext, hc, hrest⟩ :=
    @isNumeral_writtenMagnitude .document (.inr rfl) x.magnitude
  rw [document, if_pos hx, documentText]
  split
  · have hsigned : ("-" ++ writtenMagnitude .document x.magnitude).toList = '-' :: c :: rest := by
      rw [String.toList_append, htext]
      rfl
    exact .number hsigned rfl
      (List.forall_mem_cons.mpr ⟨isNumeralPart_of_isDigit hc, hrest⟩)
  · exact .number (by rw [String.empty_append, htext]) (by rw [hc]; rfl) hrest

theorem Constant.isWritten_document {c : Constant} (h : ∀ x, c = .number x → x.isFinite) :
    c.document.IsWritten := by
  cases c with
  | none => exact .text _
  | boolean b => cases b <;> exact .text _
  | number x => exact isWritten_tagged (x.isWritten_document (h x rfl))
  | text s => exact isWritten_tagged (.text s)

theorem Expr.IsFinite.isWritten_document {e : Expr} (h : e.IsFinite) : e.document.IsWritten := by
  induction h with
  | constant hc =>
    rw [document]
    exact isWritten_tagged (Constant.isWritten_document hc)
  | name identifier lookup =>
    rw [document]
    exact isWritten_tagged (isWritten_record (by simp [IsWritten.text]))
  | array _ ih =>
    rw [document, documents_eq_map]
    exact isWritten_tagged (isWritten_map ih)
  | dictionary _ _ ihkeys ihvalues =>
    rw [document, entryDocuments_eq_map]
    refine isWritten_tagged (isWritten_map fun entry hentry => .list ?_)
    simp [ihkeys entry hentry, ihvalues entry hentry]
  | unary _ ih =>
    rw [document]
    exact isWritten_tagged (isWritten_record (by simp [IsWritten.text, IsWritten.null, ih]))
  | binary _ _ ihleft ihright =>
    rw [document]
    exact isWritten_tagged (isWritten_record (by simp [IsWritten.text, ihleft, ihright]))
  | call _ _ ihcallee iharguments =>
    rw [document, documents_eq_map]
    exact isWritten_tagged (isWritten_record (by simp [ihcallee, isWritten_map iharguments]))
  | builtIn _ ih =>
    rw [document, documents_eq_map]
    exact isWritten_tagged (isWritten_record (by simp [IsWritten.text, isWritten_map ih]))

theorem isWritten_documents {es : List Expr} (h : ∀ e ∈ es, e.IsFinite) :
    (Document.list (documents es)).IsWritten := by
  rw [documents_eq_map]
  exact isWritten_map fun e he => (h e he).isWritten_document

theorem isWritten_optionalDocument {e? : Option Expr} (h : ∀ e ∈ e?, e.IsFinite) :
    (optionalDocument e?).IsWritten := by
  cases e? with
  | none => exact .null
  | some e => exact (h e rfl).isWritten_document

theorem Stmt.IsFinite.isWritten_document {s : Stmt} (h : s.IsFinite) : s.document.IsWritten := by
  induction h with
  | expression h =>
    rw [document]
    exact isWritten_tagged h.isWritten_document
  | print h =>
    rw [document]
    exact isWritten_tagged (isWritten_documents h)
  | @choice branches otherwise hconditions _ _ ihbodies ihotherwise =>
    have hotherwise : (otherwiseDocument otherwise).IsWritten := by
      cases otherwise with
      | none => exact .null
      | some body => exact isWritten_map (ihotherwise body rfl)
    have hbranches : (Document.list (branchDocuments branches)).IsWritten := by
      rw [branchDocuments_eq_map]
      refine isWritten_map fun b hb => isWritten_record ?_
      simp [(hconditions b hb).isWritten_document, isWritten_map (ihbodies b hb)]
    rw [document_choice]
    exact isWritten_tagged (isWritten_record (by simp [hbranches, hotherwise]))
  | whileLoop hcondition _ ih =>
    rw [document, bodyDocuments_eq_map]
    refine isWritten_tagged (isWritten_record ?_)
    simp [hcondition.isWritten_document, isWritten_map ih]
  | forLoop hiterator hiterable _ ih =>
    rw [document, bodyDocuments_eq_map]
    refine isWritten_tagged (isWritten_record ?_)
    simp [hiterator.isWritten_document, hiterable.isWritten_document, isWritten_map ih]
  | jump hvalue =>
    rw [document]
    refine isWritten_tagged (isWritten_record ?_)
    simp [IsWritten.text, isWritten_optionalDocument hvalue]
  | assign htarget hindices hvalue =>
    rw [document]
    refine isWritten_tagged (isWritten_record ?_)
    simp [htarget.isWritten_document, hvalue.isWritten_document, isWritten_documents hindices]
  | @function name parameters body hname hparameters _ ih =>
    have hdocuments : (Document.list (parameters.map Parameter.document)).IsWritten := by
      refine isWritten_map fun p hp => isWritten_record ?_
      simp [IsWritten.text, isWritten_optionalDocument (hparameters p hp)]
    rw [document, bodyDocuments_eq_map]
    refine isWritten_tagged (isWritten_record ?_)
    simp [hname.isWritten_document, hdocuments, isWritten_map ih]

/-! ## Scripts -/

/-- **The document of a script loses nothing**: scripts whose numbers are finite have documents
with one text only if they are the same. -/
theorem Script.document_lossless {s s' : Script} (h : ∀ x ∈ s, x.IsFinite)
    (h' : ∀ x ∈ s', x.IsFinite) : s.document.compact = s'.document.compact ↔ s = s' := by
  refine ⟨fun heq => ?_, fun heq => by rw [heq]⟩
  have hwritten {s : Script} (h : ∀ x ∈ s, x.IsFinite) :
      (Document.list (s.map Stmt.document)).IsWritten :=
    isWritten_map fun x hx => (h x hx).isWritten_document
  rw [Script.document, Script.document, bodyDocuments_eq_map, bodyDocuments_eq_map] at heq
  have hdocuments := (hwritten h).eq_of_compact_eq (hwritten h') heq
  exact eq_of_map_eq (fun x hx x' hx' => (h x hx).eq_of_document_eq (h' x' hx'))
    (Document.list.inj hdocuments)

/-- A text with a quote in it, and the two zeros behind it. -/
theorem Script.document_lossless_zeros :
    let script (zero : Binary64) : Script :=
      [.print [.text "a\"\n", .constant (.number zero)]]
    (script (.ofBits 0)).document.compact ≠ (script (.ofBits (1 <<< 63))).document.compact := by
  intro script
  have hfinite {zero : Binary64} (hzero : zero.isFinite) : ∀ x ∈ script zero, x.IsFinite := by
    refine List.forall_mem_singleton.mpr (.print (List.forall_mem_cons.mpr ⟨?_, ?_⟩))
    · exact .constant fun x hx => nomatch hx
    · refine List.forall_mem_singleton.mpr (.constant fun x hx => ?_)
      exact Constant.number.inj hx ▸ hzero
  refine (Script.document_lossless (hfinite (by decide)) (hfinite (by decide))).not.mpr ?_
  intro h
  have hzeros : Binary64.ofBits 0 = .ofBits (1 <<< 63) := by
    simpa only [script, List.cons.injEq, Stmt.print.injEq, Expr.constant.injEq,
      Constant.number.injEq, true_and, and_true] using h
  exact absurd hzeros (by decide)

end ScriptReader

import ScriptReader.Proofs.Script.Feeding
import ScriptReader.Proofs.Store.Formed
import ScriptReader.Script.Reading

/-!
# Proofs/Script/Descent — the descent reads what the lines leave behind

A descent keeps its place in nested calls, and reading line by line keeps it in a stack of frames;
they come to the same (`Session.readScript_eq`).  Each reader of the descent is compared with the
blocks at the place where it is called: reading on line by line from there is reading on line by
line from where the reader ends, with what it has read put in place.  `DescendsBelow` says so of
statements and blocks of a limited extent, and the rest is an induction on that.
-/

namespace ScriptReader

/-! ## Going on from an answer -/

namespace Answer

variable {α β : Type} {m n : Nat}

/-- What a script comes to whose reading goes on from an answer. -/
def resume (k : α → (s : Session) → s.extent < n → Except Error Script × Store)
    (x : Answer n α) : Except Error Script × Store :=
  match x with
  | ⟨.error e, s, _⟩ => (.error e, s.store)
  | ⟨.ok a, s, h⟩ => k a s (lt_of_ok h)

variable {k : α → (s : Session) → s.extent < n → Except Error Script × Store}

theorem resume_refuse (e : Error) (s : Session) :
    (refuse e s : Answer n α).resume k = (.error e, s.store) := rfl

theorem resume_done (a : α) (s : Session) (hs : s.extent < n) :
    (done a s hs).resume k = k a s hs := rfl

theorem resume_andThen (x : Answer m β) (f : β → (s : Session) → s.extent < m → Answer n α) :
    (x.andThen f).resume k = x.resume fun b s hs => (f b s hs).resume k := by
  obtain ⟨result, s, hs⟩ := x
  cases result <;> rfl

theorem resume_congr {k' : α → (s : Session) → s.extent < n → Except Error Script × Store}
    (x : Answer n α) (h : ∀ a s hs, k a s hs = k' a s hs) : x.resume k = x.resume k' := by
  obtain ⟨result, s, hs⟩ := x
  cases result with
  | error e => rfl
  | ok a => exact h a s _

end Answer

/-! ## Going on from blocks -/

namespace Blocks

/-- What a script comes to behind a statement that left these blocks. -/
def after (s : Session) : Except Error Blocks → Except Error Script × Store
  | .error e => (.error e, s.store)
  | .ok b => s.source.readFrom s.store b

/-- What a script comes to from the statement on that a session is to read. -/
def goOn (b : Blocks) (s : Session) : Except Error Script × Store :=
  if s.statement.isEmpty then (b.finish s.source.line, s.store) else after s (b.feed s.statement)

end Blocks

namespace Session

variable {α : Type} {n : Nat} {s s' : Session}

/-- What a session does to go on, by what the scanner finds. -/
theorem nextStatement_eq (s : Session) :
    (∃ e, s.source.scan.error? = some e
      ∧ s.nextStatement
        = (.error e,
          { s with source := s.source.scan.source, store := s.store.hold s.source.scan }))
      ∨ s.source.scan.error? = none ∧ ∃ s', s.nextStatement = (.ok s.source.scan.tokens.length, s')
        ∧ s'.source = s.source.scan.source ∧ s'.store = s.store.hold s.source.scan
        ∧ s'.statement = .whole s.source.scan.tokens := by
  have hsize : (s.store.hold s.source.scan).size = s.source.scan.tokens.length := by
    rw [Store.size_eq, Store.tokens_hold]
  rw [nextStatement]
  cases s.source.scan.error? with
  | some e => exact .inl ⟨e, rfl, rfl⟩
  | none =>
    refine .inr ⟨rfl, _, by rw [← hsize], rfl, rfl, ?_⟩
    rw [statement]
    dsimp only
    rw [hsize, Store.tokens_hold]
    exact Phrase.slice_zero_size (.whole s.source.scan.tokens)

theorem goOn_of_error {e : Error} {a : α} (hs : s.source.rest.length < n)
    (h : s.nextStatement = (.error e, s')) : s.goOn a hs = .refuse e s' := by
  unfold goOn
  split
  · next h' => cases h.symm.trans h'; rfl
  · next h' => cases h.symm.trans h'

theorem goOn_of_ok {count : Nat} {a : α} (hs : s.source.rest.length < n)
    (h : s.nextStatement = (.ok count, s')) :
    s.goOn a hs = .done a s' (Nat.lt_of_le_of_lt (extent_nextStatement_le h) hs) := by
  unfold goOn
  split
  · next h' => cases h.symm.trans h'
  · next h' => cases h.symm.trans h'; rfl

/-- The blocks go on as the session does. -/
theorem after_ok {a : α} {b : Blocks} (hs : s.source.rest.length < n)
    {k : α → (s : Session) → s.extent < n → Except Error Script × Store}
    (hk : ∀ s' hs', b.goOn s' = k a s' hs') :
    Blocks.after s (.ok b) = (s.goOn a hs).resume k := by
  rw [Blocks.after, Source.readFrom]
  dsimp only
  rcases s.nextStatement_eq with ⟨e, herror, hnext⟩ | ⟨herror, s', hnext, hsource, hstore, hp⟩
  · rw [goOn_of_error hs hnext, herror, Answer.resume_refuse]
  · rw [goOn_of_ok hs hnext, herror, Answer.resume_done, ← hk, Blocks.goOn, hp, hsource, hstore,
      Store.tokens_hold]
    dsimp only
    by_cases hnil : s.source.scan.tokens = []
    · rw [dif_pos hnil, hnil]
      rfl
    · have hp : ¬(Phrase.whole s.source.scan.tokens).isEmpty := fun h =>
        hnil (List.isEmpty_iff.mp h)
      rw [dif_neg hnil, if_neg hp]
      cases b.feed (.whole s.source.scan.tokens) with
      | error e => rw [Blocks.after, hstore]
      | ok b => rw [Blocks.after, hsource, hstore]

end Session

/-! ## Bodies -/

namespace Blocks

/-- Begins a body behind its header, which is inline or a block. -/
def enterBody (inline block : Blocks) (p : Phrase) : Except Error Blocks :=
  match p.inlineBody? with
  | none => .ok block
  | some q => begin q inline

theorem enterBody_inline {inline block : Blocks} {p q : Phrase} (h : p.inlineBody? = some q) :
    enterBody inline block p = begin q inline := by
  rw [enterBody, h]

theorem enterBody_block {inline block : Blocks} {p : Phrase} (h : p.inlineBody? = none) :
    enterBody inline block p = .ok block := by
  rw [enterBody, h]

/-- Puts a statement in place and goes on. -/
def putAndGoOn (b : Blocks) (stmt : Stmt) (s : Session) : Except Error Script × Store :=
  (put stmt b.done b.frames).goOn s

end Blocks

open Blocks

namespace Session

variable {α : Type} {n N : Nat} {s s' : Session}

/-- **What is read in less than `N` is what the lines leave behind.** -/
structure DescendsBelow (N : Nat) : Prop where
  statement : ∀ (s : Session) (hs : s.statement.isEmpty = false) (b : Blocks), s.extent < N →
    after s (b.begin s.statement)
      = (s.readStatement hs).resume fun stmt s' _ => b.putAndGoOn stmt s'
  block : ∀ {n : Nat} (s : Session) (hs : s.extent < n) {place : List Stmt → Blocks}
    (before : List Stmt)
    {k : List Stmt → (s : Session) → s.extent < n → Except Error Script × Store},
    s.extent < N → Accumulates place →
    (∀ stmts s' hs', s'.statement.endsBlock → (place stmts.reverse).goOn s' = k stmts s' hs') →
    (place before).goOn s = (s.readBlock hs before).resume k

theorem DescendsBelow.mono {m : Nat} (h : DescendsBelow N) (hm : m ≤ N) : DescendsBelow m where
  statement s hs b hlt := h.statement s hs b (Nat.lt_of_lt_of_le hlt hm)
  block s hs _ before _ hlt := h.block s hs before (Nat.lt_of_lt_of_le hlt hm)

/-- **A body is read as the lines behind its header are.** -/
theorem resume_readBody (hbelow : DescendsBelow s.extent) (rule : HeaderRule)
    (hs : s.statement.isEmpty = false) (inline : Option Expr → Blocks)
    {place : Option Expr → List Stmt → Blocks} (hplace : ∀ c, Accumulates (place c))
    {k : Body → (s' : Session) → s'.extent < s.extent → Except Error Script × Store}
    (hinline : ∀ c, s.statement.readHeader rule = .ok c → ∀ stmt s' hs',
      (inline c).putAndGoOn stmt s' = k ⟨c, [stmt], true⟩ s' hs')
    (hblock : ∀ c, s.statement.readHeader rule = .ok c → ∀ stmts s' hs',
      s'.statement.endsBlock → (place c stmts.reverse).goOn s' = k ⟨c, stmts, false⟩ s' hs') :
    after s ((s.statement.readHeader rule).bind fun c =>
        enterBody (inline c) (place c []) s.statement)
      = (s.readBody rule hs).resume k := by
  rw [readBody]
  cases hc : s.statement.readHeader rule with
  | error e => rfl
  | ok c =>
    change after s (enterBody (inline c) (place c []) s.statement) = _
    dsimp only
    split
    · next p hbody =>
      have hp : (s.narrow p).statement.isEmpty = false := by
        rw [statement_narrow hbody]
        exact Phrase.isEmpty_inlineBody? hbody
      have hnarrow := hbelow.statement (s.narrow p) hp (inline c) (extent_narrow_lt hbody)
      rw [statement_narrow hbody] at hnarrow
      rw [enterBody_inline hbody, Answer.resume_andThen]
      exact hnarrow.trans (Answer.resume_congr _ fun stmt s' _ => hinline c hc stmt s' _)
    · next hbody =>
      rw [enterBody_block hbody, Answer.resume_andThen]
      refine after_ok (rest_lt_extent hs) fun s' hs' => ?_
      rw [Answer.resume_andThen]
      exact hbelow.block s' hs' [] hs' (hplace c) (hblock c hc)

/-- A body with a condition is read as the lines behind its header are. -/
theorem resume_readBranch (hbelow : DescendsBelow s.extent) (hs : s.statement.isEmpty = false)
    (inline : Expr → Blocks) {place : Expr → List Stmt → Blocks}
    (hplace : ∀ c, Accumulates (place c))
    {k : Expr × Body → (s' : Session) → s'.extent < s.extent → Except Error Script × Store}
    (hinline : ∀ c stmt s' hs',
      (inline c).putAndGoOn stmt s' = k (c, ⟨some c, [stmt], true⟩) s' hs')
    (hblock : ∀ c stmts s' hs', s'.statement.endsBlock →
      (place c stmts.reverse).goOn s' = k (c, ⟨some c, stmts, false⟩) s' hs') :
    after s (s.statement.readCondition.bind fun c =>
        enterBody (inline c) (place c []) s.statement)
      = (s.readBranch hs).resume k := by
  have hcondition : s.statement.readCondition.bind (fun c =>
      enterBody (inline c) (place c []) s.statement)
        = (s.statement.readHeader .condition).bind fun c =>
          enterBody (inline (c.getD .nothing)) (place (c.getD .nothing) []) s.statement := by
    rw [Phrase.readCondition]
    cases hc : s.statement.readHeader .condition with
    | error e => rfl
    | ok c =>
      obtain ⟨e, rfl⟩ := Phrase.exists_of_readHeader_condition hc
      rfl
  rw [hcondition, readBranch, Answer.resume_andThen]
  refine resume_readBody hbelow _ hs (fun c => inline (c.getD .nothing)) (fun c => hplace _)
    (fun c hc stmt s' hs' => ?_)
    fun c hc stmts s' hs' hend => ?_
  · obtain ⟨e, rfl⟩ := Phrase.exists_of_readHeader_condition hc
    exact hinline e stmt s' hs'
  · obtain ⟨e, rfl⟩ := Phrase.exists_of_readHeader_condition hc
    exact hblock e stmts s' hs' hend

/-! ## The ends of statements -/

/-- **A statement that waits for its `end` is closed by it.** -/
theorem goOn_eq_expectEnd {b outer : Blocks} {f : Frame} {frames : List Frame} {stmt : Stmt}
    (hs : s.extent < n) (hframes : b.frames = f :: frames)
    (hfeed : s.statement.isEmpty = false →
      b.feed s.statement = Blocks.close f.kind stmt s.statement outer) :
    b.goOn s = (s.expectEnd f.kind stmt hs).resume fun stmt s' _ => outer.putAndGoOn stmt s' := by
  rw [Blocks.goOn, expectEnd]
  cases hempty : s.statement.isEmpty with
  | true =>
    rw [if_pos rfl, if_pos rfl, finish, hframes]
    rfl
  | false =>
    rw [if_neg Bool.false_ne_true, if_neg Bool.false_ne_true, hfeed hempty, Blocks.close]
    split
    · exact after_ok _ fun _ _ => rfl
    · rfl

theorem isTerminator_of_endsBlock (hend : s.statement.endsBlock)
    (hempty : s.statement.isEmpty = false) : isTerminator s.statement = true := by
  rw [Phrase.endsBlock, hempty, Bool.false_or] at hend
  exact hend

/-- A loop or a function is closed behind its body. -/
theorem goOn_eq_close {b : Blocks} {o : Opening} {condition : Option Expr} {stmts : List Stmt}
    (hs : s.extent < n) (hend : s.statement.endsBlock) :
    (b.push (.block o stmts.reverse)).goOn s
      = (s.close o ⟨condition, stmts, false⟩ hs).resume fun stmt s' _ => b.putAndGoOn stmt s' := by
  refine goOn_eq_expectEnd hs (f := .block o stmts.reverse) rfl fun hempty => ?_
  rw [feed]
  dsimp only [Blocks.push]
  rw [if_pos (isTerminator_of_endsBlock hend hempty), List.reverse_reverse]
  rfl

/-! ## Choices -/

theorem accumulates_push_block (o : Opening) (b : Blocks) :
    Accumulates fun before => b.push (.block o before) :=
  accumulates_block o b.frames b.done

theorem accumulates_push_choice (branches : List Branch) (condition : Option Expr) (b : Blocks) :
    Accumulates fun before => b.push (.choice branches condition false before) :=
  accumulates_choice branches condition b.frames b.done

/-- The branch that is being read ends here, be it only because it is inline. -/
def EndsBranch (isInline : Bool) (stmts : List Stmt) (s : Session) : Prop :=
  s.statement.isEmpty = false →
    (isTerminator s.statement || (isInline && !stmts.reverse.isEmpty)) = true

theorem EndsBranch.of_inline (stmt : Stmt) (s : Session) : EndsBranch true [stmt] s :=
  fun _ => Bool.or_true _

theorem EndsBranch.of_block {stmts : List Stmt} (h : s.statement.endsBlock) :
    EndsBranch false stmts s := fun hempty => by
  rw [isTerminator_of_endsBlock h hempty, Bool.true_or]

variable {b : Blocks} {branches : List Branch} {condition : Expr} {isInline : Bool}
  {stmts : List Stmt}

/-- Behind its last branch, a choice is closed by `end`. -/
theorem goOn_eq_expectEnd_choice (last : Option Expr) (hs : s.extent < n)
    (hends : EndsBranch isInline stmts s)
    (hword : last.isSome → s.statement.startsWith "elif" = false
      ∧ s.statement.startsWith "else" = false) :
    (b.push (.choice branches last isInline stmts.reverse)).goOn s
      = (s.expectEnd .choice (closeChoice branches last stmts.reverse) hs).resume
        fun stmt s' _ => b.putAndGoOn stmt s' := by
  refine goOn_eq_expectEnd hs (f := .choice branches last isInline stmts.reverse) rfl
    fun hempty => ?_
  rw [feed]
  dsimp only [Blocks.push]
  rw [if_pos (hends hempty)]
  cases last with
  | none => rfl
  | some c =>
    obtain ⟨helif, helse⟩ := hword rfl
    rw [helif, helse]
    rfl

/-- What is left of a choice behind its branches. -/
def readRest (s : Session) (hs : s.extent < n) (branches : List Branch) : Answer n Stmt :=
  (s.readElse hs).andThen fun otherwise s' hs' =>
    s'.expectEnd .choice (.choice branches otherwise) hs'

/-- **Behind the branches, `else` and `end` are read as the lines are.** -/
theorem goOn_eq_readRest (hbelow : DescendsBelow s.extent) (hs : s.extent < n)
    (hends : EndsBranch isInline stmts s) (helif : s.statement.startsWith "elif" = false) :
    (b.push (.choice branches (some condition) isInline stmts.reverse)).goOn s
      = (s.readRest hs ((condition, stmts) :: branches).reverse).resume
        fun stmt s' _ => b.putAndGoOn stmt s' := by
  rw [readRest, readElse, Answer.resume_andThen]
  split
  · next helse =>
    have hempty := Phrase.isEmpty_eq_false_of_startsWith helse
    have hfeed :
        (b.push (.choice branches (some condition) isInline stmts.reverse)).feed s.statement
        = (s.statement.readHeader .nothing).bind fun _ =>
          enterBody (b.push (.choice ((condition, stmts) :: branches) none true []))
            (b.push (.choice ((condition, stmts) :: branches) none false [])) s.statement := by
      rw [feed]
      dsimp only [Blocks.push]
      rw [helif, helse, List.reverse_reverse, Phrase.checkElse]
      cases s.statement.readHeader .nothing <;> rfl
    rw [Blocks.goOn, hempty, if_neg Bool.false_ne_true, hfeed, Answer.resume_andThen]
    refine resume_readBody hbelow _ hempty
      (fun _ => b.push (.choice ((condition, stmts) :: branches) none true []))
      (fun _ => accumulates_push_choice _ none b) (fun _ _ stmt s' hs' => ?_)
      fun _ _ stmts s' hs' hend => ?_
    · exact goOn_eq_expectEnd_choice none (Nat.lt_trans hs' hs) (.of_inline stmt s')
        (absurd · Bool.false_ne_true)
    · rw [Answer.resume_done, goOn_eq_expectEnd_choice none (Nat.lt_trans hs' hs)
        (.of_block hend) (absurd · Bool.false_ne_true), closeChoice, List.reverse_reverse]
  · next helse =>
    rw [Answer.resume_done, goOn_eq_expectEnd_choice _ hs hends fun _ =>
      ⟨helif, Bool.eq_false_iff.mpr helse⟩, closeChoice, List.reverse_reverse]

/-- **So are further branches.** -/
theorem goOn_eq_readBranches (hbelow : DescendsBelow (s.extent + 1)) (hs : s.extent < n)
    (hends : EndsBranch isInline stmts s) :
    (b.push (.choice branches (some condition) isInline stmts.reverse)).goOn s
      = ((s.readBranches hs ((condition, stmts) :: branches)).andThen fun branches s' hs' =>
          s'.readRest hs' branches).resume fun stmt s' _ => b.putAndGoOn stmt s' := by
  induction hn : s.extent using Nat.strongRecOn
    generalizing s branches condition isInline stmts with
  | ind _ ih =>
    subst hn
    rw [readBranches, Answer.resume_andThen]
    split
    · next helif =>
      have hempty := Phrase.isEmpty_eq_false_of_startsWith helif
      have hfeed : (b.push (.choice branches (some condition) isInline stmts.reverse)).feed
          s.statement = s.statement.readCondition.bind fun c =>
            enterBody (b.push (.choice ((condition, stmts) :: branches) (some c) true []))
              (b.push (.choice ((condition, stmts) :: branches) (some c) false []))
              s.statement := by
        rw [feed]
        dsimp only [Blocks.push]
        rw [helif, List.reverse_reverse]
        rfl
      rw [Blocks.goOn, hempty, if_neg Bool.false_ne_true, hfeed, Answer.resume_andThen]
      refine resume_readBranch (hbelow.mono (Nat.le_succ _)) hempty
        (fun c => b.push (.choice ((condition, stmts) :: branches) (some c) true []))
        (fun c => accumulates_push_choice _ (some c) b) (fun c stmt s' hs' => ?_)
        fun c stmts s' hs' hend => ?_
      · exact (ih _ hs' (hbelow.mono (Nat.succ_le_succ hs'.le)) (Nat.lt_trans hs' hs)
          (.of_inline stmt s') rfl).trans (Answer.resume_andThen _ _)
      · exact (ih _ hs' (hbelow.mono (Nat.succ_le_succ hs'.le)) (Nat.lt_trans hs' hs)
          (.of_block hend) rfl).trans (Answer.resume_andThen _ _)
    · next helif =>
      exact goOn_eq_readRest (hbelow.mono (Nat.le_succ _)) hs hends (Bool.eq_false_iff.mpr helif)

/-! ## Statements and blocks -/

/-- What has a header begins the body behind it. -/
theorem begin_header {p : Phrase} {header : Except Error α} {line : α → Option Phrase → Line}
    (hp : Line.read p = (line · p.inlineBody?) <$> header) {b : Blocks} {inline block : α → Blocks}
    (hinline : ∀ a q, Line.read p = .ok (line a (some q)) → begin p b = begin q (inline a))
    (hblock : ∀ a, Line.read p = .ok (line a none) → begin p b = .ok (block a)) :
    begin p b = header.bind fun a => enterBody (inline a) (block a) p := by
  cases header with
  | error e =>
    rw [begin_eq, hp]
    rfl
  | ok a =>
    replace hp : Line.read p = .ok (line a p.inlineBody?) := hp
    change _ = enterBody (inline a) (block a) p
    cases hbody : p.inlineBody? with
    | none =>
      rw [enterBody_block hbody]
      exact hblock a (hbody ▸ hp)
    | some q =>
      rw [enterBody_inline hbody]
      exact hinline a q (hbody ▸ hp)

theorem begin_if {p : Phrase} (hp : p.textAt 0 = "if") (b : Blocks) :
    begin p b = p.readCondition.bind fun c =>
      enterBody (b.push (.choice [] (some c) true []))
        (b.push (.choice [] (some c) false [])) p :=
  begin_header (Line.read_if hp) (fun _ _ h => by rw [begin_eq, h]; rfl)
    fun _ h => by rw [begin_eq, h]; rfl

theorem begin_while {p : Phrase} (hp : p.textAt 0 = "while") (b : Blocks) :
    begin p b = p.readCondition.bind fun c =>
      enterBody (b.push (.awaiting (.whileLoop c))) (b.push (.block (.whileLoop c) [])) p :=
  begin_header (Line.read_while hp) (fun _ _ h => by rw [begin_eq, h]; rfl)
    fun _ h => by rw [begin_eq, h]; rfl

theorem begin_opening {p : Phrase} {header : Except Error Opening}
    (hp : Line.read p = (Line.opening · p.inlineBody?) <$> header) (b : Blocks) :
    begin p b = header.bind fun o =>
      enterBody (b.push (.awaiting o)) (b.push (.block o [])) p :=
  begin_header hp (fun _ _ h => by rw [begin_eq, h]; rfl) fun _ h => by rw [begin_eq, h]; rfl

theorem read_eq_readSimple {p : Phrase}
    (hp : p.textAt 0 ≠ "if" ∧ p.textAt 0 ≠ "while" ∧ p.textAt 0 ≠ "for" ∧ p.textAt 0 ≠ "def") :
    Line.read p = Line.complete <$> p.readSimple := by
  obtain ⟨hif, hwhile, hfor, hdef⟩ := hp
  rw [Line.read]
  split
  · next h => exact absurd h hif
  · next h => exact absurd h hwhile
  · next h => exact absurd h hfor
  · next h => exact absurd h hdef
  · next h => simp only [Phrase.readSimple, h]
  · next h => simp only [Phrase.readSimple, h]
  · next h => simp only [Phrase.readSimple, h]
  · next h =>
    simp only [Phrase.readSimple, h]
    cases Expr.readList "," (p.drop 1) <;> rfl
  · have hother : p.readSimple = if p.hasOutside "=" || p.hasOutside ":=" then p.readAssignment
        else .expression <$> Expr.read p .value := by
      rw [Phrase.readSimple]
      split <;> first | contradiction | rfl
    rw [hother]
    split
    · rfl
    · cases Expr.read p .value <;> rfl

/-- A statement without a body is put in place. -/
theorem begin_simple {p : Phrase}
    (hp : p.textAt 0 ≠ "if" ∧ p.textAt 0 ≠ "while" ∧ p.textAt 0 ≠ "for" ∧ p.textAt 0 ≠ "def")
    (b : Blocks) : begin p b = p.readSimple.map fun stmt => put stmt b.done b.frames := by
  rw [begin_eq, read_eq_readSimple hp]
  cases p.readSimple <;> rfl

/-- What has a header other than a condition is read as the lines are. -/
theorem resume_readOpening (hbelow : DescendsBelow s.extent) (hs : s.statement.isEmpty = false)
    {header : Except Error Opening}
    (hp : Line.read s.statement = (Line.opening · s.statement.inlineBody?) <$> header)
    (b : Blocks) :
    after s (b.begin s.statement)
      = (s.readOpening hs header).resume fun stmt s' _ => b.putAndGoOn stmt s' := by
  rw [begin_opening hp]
  cases header with
  | error e =>
    rw [readOpening]
    rfl
  | ok o =>
    rw [readOpening, Answer.resume_andThen]
    exact resume_readBody hbelow .anything hs (fun _ => b.push (.awaiting o))
      (fun _ => accumulates_push_block o b) (fun _ _ stmt s' hs' => rfl)
      fun _ _ stmts s' hs' hend => goOn_eq_close hs' hend

/-- **A statement is read as its lines are.** -/
theorem resume_readStatement (hbelow : DescendsBelow s.extent)
    (hs : s.statement.isEmpty = false) (b : Blocks) :
    after s (b.begin s.statement)
      = (s.readStatement hs).resume fun stmt s' _ => b.putAndGoOn stmt s' := by
  rw [readStatement]
  split
  · next hif =>
    rw [begin_if hif, readChoice, Answer.resume_andThen]
    exact resume_readBranch hbelow hs (fun c => b.push (.choice [] (some c) true []))
      (fun c => accumulates_push_choice [] (some c) b)
      (fun c stmt s' hs' => goOn_eq_readBranches (hbelow.mono hs') hs' (.of_inline stmt s'))
      fun c stmts s' hs' hend => goOn_eq_readBranches (hbelow.mono hs') hs' (.of_block hend)
  · next hwhile =>
    rw [begin_while hwhile, readWhile, Answer.resume_andThen]
    exact resume_readBranch hbelow hs (fun c => b.push (.awaiting (.whileLoop c)))
      (fun c => accumulates_push_block (.whileLoop c) b) (fun c stmt s' hs' => rfl)
      fun c stmts s' hs' hend => goOn_eq_close hs' hend
  · next hfor => exact resume_readOpening hbelow hs (Line.read_for hfor) b
  · next hdef => exact resume_readOpening hbelow hs (Line.read_def hdef) b
  · next hif hwhile hfor hdef =>
    rw [begin_simple ⟨hif, hwhile, hfor, hdef⟩]
    cases s.statement.readSimple with
    | error e => rfl
    | ok stmt => exact after_ok _ fun _ _ => rfl

/-- **So is what is read in less than any extent.** -/
theorem descendsBelow (N : Nat) : DescendsBelow N := by
  induction N with
  | zero =>
    exact ⟨fun _ _ _ h => absurd h (Nat.not_lt_zero _),
      fun _ _ _ _ _ h => absurd h (Nat.not_lt_zero _)⟩
  | succ N ih =>
    refine ⟨fun s hs b hlt => resume_readStatement (ih.mono (Nat.le_of_lt_succ hlt)) hs b,
      fun s hs place before k hlt hplace hk => ?_⟩
    rw [readBlock]
    split
    · next hend =>
      rw [Answer.resume_done, ← hk _ _ hs hend, List.reverse_reverse]
    · next hend =>
      have hempty := Phrase.isEmpty_eq_false_of_endsBlock hend
      have hnot : isTerminator s.statement = false := by
        rw [Phrase.endsBlock, hempty, Bool.false_or] at hend
        exact Bool.eq_false_iff.mpr hend
      rw [Blocks.goOn, hempty, if_neg Bool.false_ne_true, hplace.feed_eq _ _ hnot,
        resume_readStatement (ih.mono (Nat.le_of_lt_succ hlt)) hempty, Answer.resume_andThen]
      refine Answer.resume_congr _ fun stmt s' hs' => ?_
      rw [putAndGoOn, hplace.put_eq]
      exact ih.block s' _ _ (Nat.lt_of_lt_of_le hs' (Nat.le_of_lt_succ hlt)) hplace hk

/-! ## Scripts -/

/-- What a script comes to behind its statements, of which nothing may be left. -/
theorem goOn_eq_of_endsBlock {stmts : List Stmt} (hend : s.statement.endsBlock) :
    (⟨[], stmts.reverse⟩ : Blocks).goOn s
      = (if s.statement.isEmpty then .ok stmts
          else s.statement.refuse 0 (.noMatchingBlock (s.statement.found 0)), s.store) := by
  rw [Blocks.goOn]
  cases hempty : s.statement.isEmpty with
  | true =>
    rw [if_pos rfl, if_pos rfl, finish, List.reverse_reverse]
  | false =>
    rw [if_neg Bool.false_ne_true, if_neg Bool.false_ne_true, feed]
    dsimp only
    rw [if_pos (isTerminator_of_endsBlock hend hempty)]
    rfl

/-- **The descent reads what the lines leave behind**, and leaves the same store. -/
theorem readScript_eq (s : Session) :
    (s.readScript.1, s.readScript.2.store) = s.source.readFrom s.store .empty := by
  have hgoOn : s.source.readFrom s.store .empty
      = (s.goOn () (Nat.lt_succ_self _)).resume fun _ s' _ => Blocks.empty.goOn s' :=
    after_ok _ fun _ _ => rfl
  rw [hgoOn, readScript]
  rcases s.nextStatement_eq with ⟨e, -, hnext⟩ | ⟨-, s', hnext, -, -, hp⟩
  · rw [goOn_of_error _ hnext, hnext]
    rfl
  · rw [goOn_of_ok _ hnext, hnext, Answer.resume_done]
    dsimp only
    split
    · have hblock := (descendsBelow (s'.extent + 1)).block s' (Nat.lt_succ_self _) []
        (Nat.lt_succ_self _) accumulates_nil fun stmts s'' _ => goOn_eq_of_endsBlock
      refine Eq.trans ?_ hblock.symm
      generalize s'.readBlock _ [] = x
      obtain ⟨result, s'', hs''⟩ := x
      cases result with
      | error e => rfl
      | ok stmts =>
        rw [Answer.resume]
        dsimp only
        split <;> rfl
    · next hcount =>
      have hnil : s.source.scan.tokens = [] :=
        List.length_eq_zero_iff.mp (Nat.eq_zero_of_not_pos hcount)
      rw [Blocks.goOn, hp, hnil]
      rfl

theorem read_fst_eq (source : String) (s : Session) :
    (s.read source).1 = ((Source.ofString source).readFrom s.store .empty).1 :=
  congrArg Prod.fst (readScript_eq { s with source := .ofString source })

/-- What is left of a script's tokens is cleared away. -/
theorem store_read_eq (source : String) (s : Session) :
    (s.read source).2.store = ((Source.ofString source).readFrom s.store .empty).2.clear :=
  congrArg (Store.clear ∘ Prod.snd) (readScript_eq { s with source := .ofString source })

end Session

end ScriptReader

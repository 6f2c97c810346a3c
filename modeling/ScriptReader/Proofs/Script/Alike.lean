import ScriptReader.Proofs.Expr.Alike
import ScriptReader.Proofs.Script.Feeding

/-!
# Proofs/Script/Alike — a script does not depend on the lines of its tokens

Lines that are alike say the same (`Phrase.Alike.readLine`), and what is read of a script after them
is the same as well, whatever statements there were before it outside all blocks: `Blocks.Follows`
is preserved by every line (`Blocks.feed_alike`), and so by all of them (`Blocks.feedAll_alike`).
-/

namespace ScriptReader

variable {R : Nat → Nat → Prop}

/-! ## Headers -/

namespace Phrase.Alike

variable {p q : Phrase} (h : p.Alike R q)
include h

theorem headerEnd_eq : p.headerEnd = q.headerEnd := by
  rw [headerEnd, headerEnd, h.findOutside?_eq, h.size_eq]

theorem inlineBody? : Option.Rel (Alike R) p.inlineBody? q.inlineBody? := by
  rw [Phrase.inlineBody?, Phrase.inlineBody?, h.findOutside?_eq, h.size_eq]
  split
  · split
    · exact .some (h.drop _)
    · exact .none
  · exact .none

theorem readHeader (rule : HeaderRule) :
    Parallel R Eq (p.readHeader rule) (q.readHeader rule) := by
  have hcondition : (p.slice 1 q.headerEnd).Alike R (q.slice 1 q.headerEnd) := h.slice _ _
  cases rule with
  | condition =>
    rw [Phrase.readHeader, Phrase.readHeader, h.headerEnd_eq, hcondition.isEmpty_eq]
    split
    · exact h.refuse 0 ⟨rfl, rfl, .cons (h.found 0) .nil⟩ rfl
    · exact (Expr.read_alike hcondition _).map fun _ _ heq => congrArg some heq
  | nothing =>
    rw [Phrase.readHeader, Phrase.readHeader, h.headerEnd_eq]
    split
    · exact h.refuse 1 ⟨rfl, rfl, .cons (h.found 1) .nil⟩ rfl
    · exact .ok rfl
  | anything => exact .ok rfl

theorem readCondition : Parallel R Eq p.readCondition q.readCondition := by
  refine (h.readHeader .condition).bind_eq fun condition _ => ?_
  split
  · exact .ok rfl
  · exact h.refuse 0 ⟨rfl, rfl, .nil⟩ rfl

theorem checkElse : Parallel R Eq p.checkElse q.checkElse :=
  (h.readHeader .nothing).map fun _ _ _ => rfl

theorem readTarget (lookup : Lookup) :
    Parallel R Eq (Expr.readTarget p lookup) (Expr.readTarget q lookup) := by
  refine (Expr.read_alike h lookup).bind_eq fun e _ => ?_
  split
  · exact .ok rfl
  · exact h.refuse 0 ⟨rfl, rfl, .nil⟩ rfl

theorem readForHeader : Parallel R Eq p.readForHeader q.readForHeader := by
  have hheader : (p.take q.headerEnd).Alike R (q.take q.headerEnd) := h.take _
  rw [Phrase.readForHeader, Phrase.readForHeader, h.headerEnd_eq]
  dsimp only
  rw [hheader.findOutside?_eq]
  split
  · exact h.refuse 0 ⟨rfl, rfl, .cons (h.found 0) .nil⟩ rfl
  · next pos _ =>
    rw [(hheader.drop (pos + 1)).isEmpty_eq]
    split
    · exact h.refuse 0 ⟨rfl, rfl, .cons (h.found pos) .nil⟩ rfl
    · refine ((hheader.slice 1 pos).readTarget _).bind_eq fun _ _ => ?_
      exact (Expr.read_alike (hheader.drop (pos + 1)) _).bind_eq fun _ _ => .ok rfl

omit h in
theorem readParameter {all all' : Phrase} (hall : all.Alike R all') (h : p.Alike R q) :
    Parallel R Eq (all.readParameter p) (all'.readParameter q) := by
  have hmalformed : Parallel R Eq
      (all.refuse (α := Parameter) 0 (.malformedParameter p.spelling (all.found 0)))
      (all'.refuse (α := Parameter) 0 (.malformedParameter q.spelling (all'.found 0))) :=
    hall.refuse 0 ⟨rfl, rfl, .cons (hall.found 0) .nil⟩ rfl
  have htokens := h.tokens
  rw [Phrase.readParameter, Phrase.readParameter, h.hasText_eq]
  generalize p.tokens = ts at htokens ⊢
  generalize q.tokens = us at htokens ⊢
  rcases htokens with _ | ⟨ht, _ | ⟨_, _ | ⟨_, _⟩⟩⟩
  · exact hmalformed
  · dsimp only
    rw [ht.kind_eq, ht.text_eq]
    split
    · exact .ok rfl
    · exact hmalformed
  · exact hmalformed
  · dsimp only
    rw [ht.kind_eq, ht.text_eq]
    split
    · exact (Expr.read_alike (h.drop 2) _).map fun _ _ heq => by rw [heq]
    · exact hmalformed

theorem readFunctionHeader : Parallel R Eq p.readFunctionHeader q.readFunctionHeader := by
  rw [Phrase.readFunctionHeader, Phrase.readFunctionHeader, h.findOutside?_eq]
  split
  · exact h.refuse 0 ⟨rfl, rfl, .cons (h.found 0) .nil⟩ rfl
  · next pos _ =>
    refine ((h.slice 1 pos).readTarget _).bind_eq fun name _ => ?_
    dsimp only
    split
    · exact h.refuse 0 ⟨rfl, rfl, .nil⟩ rfl
    · refine (h.closerOf pos).bind_eq fun last _ => ?_
      have hall : (p.slice (pos + 1) last).Alike R (q.slice (pos + 1) last) := h.slice _ _
      refine (Parallel.mapM (hall.segments ",") fun _ _ hr => ?_).bind_eq fun _ _ => .ok rfl
      exact readParameter hall hr

/-! ## Statements on one line -/

theorem readJump (kind : Jump) : Parallel R Eq (p.readJump kind) (q.readJump kind) := by
  have hvalue : (p.drop 1).Alike R (q.drop 1) := h.drop 1
  rw [Phrase.readJump, Phrase.readJump, hvalue.isEmpty_eq]
  split
  · exact .ok rfl
  split
  · exact h.refuse 0 ⟨rfl, rfl, .cons (hvalue.found 0) .nil⟩ rfl
  · exact (Expr.read_alike hvalue _).map fun _ _ heq => by rw [heq]

theorem readList (separator : String) :
    Parallel R Eq (Expr.readList separator p) (Expr.readList separator q) :=
  Parallel.mapM (h.segments separator) fun _ _ hr => Expr.read_alike hr _

theorem readIndices (last : Nat) (later : List Expr) :
    Parallel R Eq (p.readIndices last later) (q.readIndices last later) := by
  induction last using Nat.strongRecOn generalizing later with
  | ind last ih =>
    rw [readIndices_unfold, readIndices_unfold, h.hasText_eq]
    split
    · next hlast =>
      refine (h.openerOf (last - 1)).bind_eq fun first hfirst => ?_
      refine (Expr.read_alike (h.slice (first + 1) (last - 1)) _).bind_eq fun index _ => ?_
      exact ih first (by have := openerOf_le hfirst; omega) _
    · exact .ok rfl

theorem readAssignmentAt (pos : Nat) (lookup : Lookup) :
    Parallel R Eq (p.readAssignmentAt pos lookup) (q.readAssignmentAt pos lookup) := by
  have hvalue : (p.drop (pos + 1)).Alike R (q.drop (pos + 1)) := h.drop _
  rw [Phrase.readAssignmentAt, Phrase.readAssignmentAt]
  dsimp only
  rw [hvalue.isEmpty_eq]
  split
  · exact h.refuse 0 ⟨rfl, rfl, .cons (h.found pos) .nil⟩ rfl
  · refine (h.readIndices pos []).bind_eq fun x _ => ?_
    obtain ⟨last, indices⟩ := x
    refine ((h.take last).readTarget _).bind_eq fun _ _ => ?_
    exact (Expr.read_alike hvalue _).bind_eq fun _ _ => .ok rfl

theorem readAssignment : Parallel R Eq p.readAssignment q.readAssignment := by
  rw [Phrase.readAssignment, Phrase.readAssignment, assignment?, assignment?, h.findOutside?_eq,
    h.findOutside?_eq]
  split
  · exact h.readAssignmentAt _ _
  · exact h.refuse 0 ⟨rfl, rfl, .nil⟩ rfl

end Phrase.Alike

/-! ## Lines -/

/-- The lines say the same; what follows a header on the same line is alike. -/
inductive Line.Alike (R : Nat → Nat → Prop) : Line → Line → Prop
  | complete (s : Stmt) : Alike R (.complete s) (.complete s)
  | opening (o : Opening) {body body' : Option Phrase}
      (h : Option.Rel (Phrase.Alike R) body body') : Alike R (.opening o body) (.opening o body')
  | choice (condition : Expr) {body body' : Option Phrase}
      (h : Option.Rel (Phrase.Alike R) body body') :
      Alike R (.choice condition body) (.choice condition body')

/-- **Phrases that are alike are read as lines that say the same.** -/
theorem Phrase.Alike.readLine {p q : Phrase} (h : p.Alike R q) :
    Parallel R (Line.Alike R) (Line.read p) (Line.read q) := by
  have hbody := h.inlineBody?
  unfold Line.read
  rw [h.textAt_eq, h.hasOutside_eq, h.hasOutside_eq]
  split
  · exact h.readCondition.map fun _ _ heq => heq ▸ .choice _ hbody
  · exact h.readCondition.map fun _ _ heq => heq ▸ .opening _ hbody
  · exact h.readForHeader.map fun _ _ heq => heq ▸ .opening _ hbody
  · exact h.readFunctionHeader.map fun _ _ heq => heq ▸ .opening _ hbody
  · exact (h.readJump _).map fun _ _ heq => heq ▸ .complete _
  · exact (h.readJump _).map fun _ _ heq => heq ▸ .complete _
  · exact (h.readJump _).map fun _ _ heq => heq ▸ .complete _
  · exact ((h.drop 1).readList ",").map fun _ _ heq => heq ▸ .complete _
  · split
    · exact h.readAssignment.map fun _ _ heq => heq ▸ .complete _
    · exact (Expr.read_alike h _).map fun _ _ heq => heq ▸ .complete _

/-! ## Blocks -/

namespace Blocks

/-- The same has been read behind some statements, which are outside all blocks. -/
structure Follows (base : List Stmt) (b b' : Blocks) : Prop where
  frames_eq : b'.frames = b.frames
  done_eq : b'.done = b.done ++ base

variable {base : List Stmt} {b b' : Blocks} {p q : Phrase}

theorem Follows.push (hb : Follows base b b') (f : Frame) : Follows base (b.push f) (b'.push f) :=
  ⟨congrArg (f :: ·) hb.frames_eq, hb.done_eq⟩

theorem follows_put (s : Stmt) (done : List Stmt) (frames : List Frame) :
    Follows base (put s done frames) (put s (done ++ base) frames) := by
  fun_induction put s done frames with
  | case1 => exact ⟨rfl, rfl⟩
  | case2 => exact ⟨rfl, rfl⟩
  | case3 s o frames ih => exact ih
  | case4 => exact ⟨rfl, rfl⟩

theorem Follows.put (hb : Follows base b b') (s : Stmt) :
    Follows base (put s b.done b.frames) (Blocks.put s b'.done b'.frames) := by
  rw [hb.frames_eq, hb.done_eq]
  exact follows_put s _ _

theorem begin_alike (h : p.Alike R q) (hb : Follows base b b') :
    Parallel R (Follows base) (b.begin p) (b'.begin q) := by
  induction hn : p.size using Nat.strongRecOn generalizing p q b b' with
  | ind n ih =>
    subst hn
    rw [begin_eq, begin_eq]
    refine h.readLine.bind fun l l' hl hll' => ?_
    cases hll' with
    | complete s => exact .ok (hb.put s)
    | opening o hbody =>
      cases hbody with
      | none => exact .ok (hb.push _)
      | some hq => exact ih _ (Line.size_body_lt hl (.inl ⟨_, rfl⟩)) hq (hb.push _) rfl
    | choice condition hbody =>
      cases hbody with
      | none => exact .ok (hb.push _)
      | some hq => exact ih _ (Line.size_body_lt hl (.inr ⟨_, rfl⟩)) hq (hb.push _) rfl

theorem beginBranch_alike (branches : List Branch) (condition : Option Expr) (h : p.Alike R q)
    (hb : Follows base b b') :
    Parallel R (Follows base) (beginBranch branches condition p b)
      (beginBranch branches condition q b') := by
  have hbody := h.inlineBody?
  rw [beginBranch, beginBranch]
  generalize p.inlineBody? = body at hbody ⊢
  generalize q.inlineBody? = body' at hbody ⊢
  cases hbody with
  | none => exact .ok (hb.push _)
  | some hq => exact begin_alike hq (hb.push _)

theorem close_alike (kind : BlockKind) (s : Stmt) (h : p.Alike R q) (hb : Follows base b b') :
    Parallel R (Follows base) (close kind s p b) (close kind s q b') := by
  rw [close, close, h.isOnly_eq]
  split
  · exact .ok (hb.put s)
  · exact h.refuse 0 ⟨rfl, rfl, .cons (h.found 0) .nil⟩ rfl

theorem isTerminator_alike (h : p.Alike R q) : isTerminator p = isTerminator q := by
  rw [isTerminator, isTerminator, h.startsWith_eq, h.startsWith_eq, h.startsWith_eq]

/-- **Lines that are alike have the same effect**, whatever is before it outside all blocks. -/
theorem feed_alike (h : p.Alike R q) (hb : Follows base b b') :
    Parallel R (Follows base) (b.feed p) (b'.feed q) := by
  have hbegin := begin_alike h hb
  rw [feed, feed, isTerminator_alike h, h.startsWith_eq, h.startsWith_eq, hb.frames_eq]
  split
  · split
    · exact h.refuse 0 ⟨rfl, rfl, .cons (h.found 0) .nil⟩ rfl
    · exact hbegin
  · exact hbegin
  · split
    · exact close_alike _ _ h ⟨rfl, hb.done_eq⟩
    · exact hbegin
  · next branches condition isInline body outer hframes =>
    have houter : Follows base { b with frames := outer } { b' with frames := outer } :=
      ⟨rfl, hb.done_eq⟩
    have hmore : Parallel R (Follows base)
        (if isTerminator q || (isInline && !body.isEmpty) then
          close .choice (closeChoice branches condition body) p { b with frames := outer }
          else b.begin p)
        (if isTerminator q || (isInline && !body.isEmpty) then
          close .choice (closeChoice branches condition body) q { b' with frames := outer }
          else b'.begin q) := by
      split
      · exact close_alike _ _ h houter
      · exact hbegin
    dsimp only
    split
    · exact hmore
    · split
      · exact h.readCondition.bind_eq fun _ _ => beginBranch_alike _ _ h houter
      · split
        · exact h.checkElse.bind_eq fun _ _ => beginBranch_alike _ _ h houter
        · exact hmore

/-- **So do all of them, one after another.** -/
theorem feedAll_alike {lines lines' : List (List Token)}
    (h : List.Forall₂ (TokensAlike R) lines lines') (hne : ∀ ts ∈ lines, ts ≠ [])
    (hb : Follows base b b') : Parallel R (Follows base) (feedAll lines b) (feedAll lines' b') := by
  induction h generalizing b b' with
  | nil => exact .ok hb
  | cons hts _ ih =>
    obtain ⟨hne, hrest⟩ := List.forall_mem_cons.mp hne
    exact (feed_alike (Phrase.alike_whole hts hne) hb).bind fun _ _ _ => ih hrest

end Blocks

end ScriptReader

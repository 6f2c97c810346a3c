import ScriptReader.Proofs.Script.Statements

/-!
# Proofs/Script/Automaton — block structure is that of a stack automaton

Which statements may follow one another is told by their headers alone: a stack of `Level`s says
what is open, and `Level.step` what a statement does to it.  Scripts are read by descent, which has
no stack: a statement that ends a block is left to whoever has called for the block.  What the
descent has open at each line are the frames of `Blocks` (`Session.readScript_eq`), and without
those that wait for the statement on their own line they are such a stack (`levels`).  If a
statement's header and what it says are read on their own (`Phrase.PartsRead`), the blocks follow
the automaton (`Blocks.feed_tracks`), and so does the reading of a script
(`Script.read_iff_accepted`).
-/

namespace ScriptReader

open Blocks

/-! ## Statements, header by header -/

namespace Phrase

/-- The words that begin a header. -/
def headerWords : List String := ["if", "while", "for", "def"]

/-- A statement and what follows on the same line, each behind the header of the one before it. -/
def chain (p : Phrase) : List Phrase :=
  p :: if p.textAt 0 ∈ headerWords then
    match _h : p.inlineBody? with
    | some q => chain q
    | none => []
  else []
termination_by p.size
decreasing_by exact size_inlineBody?_lt _h

/-- What follows a header on the same line. -/
def behind (p : Phrase) : List Phrase :=
  match p.inlineBody? with
  | some q => q.chain
  | none => []

theorem chain_eq (p : Phrase) :
    p.chain = p :: if p.textAt 0 ∈ headerWords then p.behind else [] := by
  rw [chain, behind]
  split
  · split <;> rename_i h <;> rw [h]
  · rfl

/-- The phrase's own header is read, or the phrase itself if it has none. -/
def ReadsAlone (p : Phrase) : Prop := (Line.read p).isOk

instance (p : Phrase) : Decidable p.ReadsAlone := inferInstanceAs (Decidable (_ = true))

/-- **The headers of a statement and what follows the last of them are read, each on its own.**
`end` has nothing to read. -/
def PartsRead (p : Phrase) : Prop :=
  if p.startsWith "elif" then p.readCondition.isOk ∧ ∀ q ∈ p.behind, q.ReadsAlone
  else if p.startsWith "else" then p.checkElse.isOk ∧ ∀ q ∈ p.behind, q.ReadsAlone
  else if p.startsWith "end" then True
  else ∀ q ∈ p.chain, q.ReadsAlone

instance (p : Phrase) : Decidable p.PartsRead := inferInstanceAs (Decidable (ite _ _ _))

end Phrase

/-! ## The automaton -/

/-- What `end` has to close: the block of a loop or a function, or a choice, whose branch is on its
header's line or not, and which has no more branches behind `else`. -/
inductive Level where
  | block
  | choice (isInline hasElse : Bool)
  deriving DecidableEq, Repr

namespace Level

/-- A phrase opens a choice, or the block of a header that nothing follows on its line. -/
def push (stack : List Level) (p : Phrase) : List Level :=
  if p.textAt 0 = "if" then .choice p.inlineBody?.isSome false :: stack
  else if p.textAt 0 ∈ Phrase.headerWords ∧ p.inlineBody? = none then .block :: stack
  else stack

/-- A branch begins, and what follows on its line. -/
def branch (hasElse : Bool) (p : Phrase) (outer : List Level) : List Level :=
  p.behind.foldl push (.choice p.inlineBody?.isSome hasElse :: outer)

/-- **What a statement does to the stack**, where it is allowed. -/
def step (stack : List Level) (p : Phrase) : Option (List Level) :=
  if p.startsWith "elif" then
    match stack with
    | .choice _ false :: outer => some (branch false p outer)
    | _ => none
  else if p.startsWith "else" then
    match stack with
    | .choice _ false :: outer => some (branch true p outer)
    | _ => none
  else if p.startsWith "end" then
    match stack with
    | _ :: outer => if p.isOnly "end" then some outer else none
    | [] => none
  else
    match stack with
    -- the one statement of the branch is complete
    | .choice true _ :: _ => none
    | _ => some (p.chain.foldl push stack)

/-- What statements do to the stack, one after another. -/
def run (stack : List Level) (lines : List (List Token)) : Option (List Level) :=
  lines.foldlM (fun stack ts => step stack (.whole ts)) stack

theorem run_cons (stack : List Level) (ts : List Token) (lines : List (List Token)) :
    run stack (ts :: lines) = (step stack (.whole ts)).bind fun stack => run stack lines := rfl

end Level

/-! ## Frames are levels -/

/-- The level of a frame that does not end with the line. -/
def Frame.level? : Frame → Option Level
  | .block .. => some .block
  | .awaiting _ => none
  | .choice _ condition isInline _ => some (.choice isInline condition.isNone)

/-- The stack of levels that frames amount to. -/
def levels (frames : List Frame) : List Level := frames.filterMap Frame.level?

/-- **A line has been read to its end**: nothing waits for the rest of it, and a branch on its
header's line has its statement. -/
def Settled : List Frame → Prop
  | .awaiting _ :: _ => False
  | .choice _ _ isInline body :: _ => isInline = true → body ≠ []
  | _ => True

namespace Blocks

/-- A complete statement leaves the same levels open, and fills the branch that waits for it. -/
theorem levels_put (s : Stmt) (done : List Stmt) (frames : List Frame) :
    levels (put s done frames).frames = levels frames ∧ Settled (put s done frames).frames := by
  fun_induction put s done frames with
  | case1 => exact ⟨rfl, trivial⟩
  | case2 => exact ⟨rfl, trivial⟩
  | case3 s o frames ih => exact ih
  | case4 => exact ⟨rfl, fun _ => List.cons_ne_nil _ _⟩

end Blocks

/-- **What a line is, by its first word.** -/
theorem Line.read_cases {p : Phrase} {l : Line} (h : Line.read p = .ok l) :
    (p.textAt 0 = "if" ∧ ∃ c, l = .choice c p.inlineBody?)
      ∨ (p.textAt 0 ≠ "if" ∧ p.textAt 0 ∈ Phrase.headerWords ∧ ∃ o, l = .opening o p.inlineBody?)
      ∨ (p.textAt 0 ∉ Phrase.headerWords ∧ ∃ s, l = .complete s) := by
  have map_eq {α : Type} {f : α → Line} {x : Except Error α} (hx : f <$> x = .ok l) :
      ∃ a, l = f a := by
    cases x with
    | error e => cases hx
    | ok a => exact ⟨a, (Except.ok.inj hx).symm⟩
  unfold Line.read at h
  split at h
  case h_1 htext => exact .inl ⟨htext, map_eq h⟩
  case h_2 htext =>
    obtain ⟨c, rfl⟩ := map_eq h
    exact .inr (.inl ⟨by rw [htext]; decide, by rw [htext]; decide, _, rfl⟩)
  case h_3 htext | h_4 htext =>
    exact .inr (.inl ⟨by rw [htext]; decide, by rw [htext]; decide, map_eq h⟩)
  case h_5 htext | h_6 htext | h_7 htext =>
    exact .inr (.inr ⟨by rw [htext]; decide, map_eq h⟩)
  case h_8 htext =>
    obtain ⟨es, rfl⟩ := map_eq h
    exact .inr (.inr ⟨by rw [htext]; decide, _, rfl⟩)
  case h_9 hif hwhile hfor hdef _ _ _ _ =>
    have hother : p.textAt 0 ∉ Phrase.headerWords := by
      simp only [Phrase.headerWords, List.mem_cons, List.not_mem_nil, or_false, not_or]
      exact ⟨hif, hwhile, hfor, hdef⟩
    split at h
    · exact .inr (.inr ⟨hother, map_eq h⟩)
    · obtain ⟨e, rfl⟩ := map_eq h
      exact .inr (.inr ⟨hother, _, rfl⟩)

namespace Blocks

variable {p : Phrase}

/-- **A statement opens the levels of its headers.** -/
theorem begin_tracks (hreads : ∀ q ∈ p.chain, q.ReadsAlone) (b : Blocks) :
    ∃ b', b.begin p = .ok b' ∧ levels b'.frames = p.chain.foldl Level.push (levels b.frames)
      ∧ Settled b'.frames := by
  induction hn : p.size using Nat.strongRecOn generalizing p b with
  | ind n ih =>
    subst hn
    rw [p.chain_eq] at hreads ⊢
    obtain ⟨hp, hbehind⟩ := List.forall_mem_cons.mp hreads
    rw [List.foldl_cons, begin_eq]
    cases hl : Line.read p with
    | error e =>
      rw [Phrase.ReadsAlone, hl] at hp
      cases hp
    | ok l =>
      have hsize (q : Phrase) (hq : p.inlineBody? = some q) : q.size < p.size :=
        Phrase.size_inlineBody?_lt hq
      rw [Level.push]
      obtain ⟨hif, c, rfl⟩ | ⟨hif, hheader, o, rfl⟩ | ⟨hheader, s, rfl⟩ := Line.read_cases hl
      · have hheader : p.textAt 0 ∈ Phrase.headerWords := by rw [hif]; decide
        rw [if_pos hheader, Phrase.behind] at hbehind ⊢
        rw [if_pos hif]
        cases hq : p.inlineBody? with
        | none => exact ⟨_, rfl, rfl, fun h => by cases h⟩
        | some q =>
          rw [hq] at hbehind
          exact ih _ (hsize q hq) hbehind (b.push (.choice [] (some c) true [])) rfl
      · rw [if_pos hheader, Phrase.behind] at hbehind ⊢
        rw [if_neg hif]
        cases hq : p.inlineBody? with
        | none =>
          rw [if_pos ⟨hheader, rfl⟩]
          exact ⟨_, rfl, rfl, trivial⟩
        | some q =>
          rw [hq] at hbehind
          rw [if_neg (fun h => by cases h.2)]
          exact ih _ (hsize q hq) hbehind (b.push (.awaiting o)) rfl
      · have hif : p.textAt 0 ≠ "if" := fun h => hheader (by rw [h]; decide)
        rw [if_neg hheader, if_neg hif, if_neg fun h => hheader h.1]
        exact ⟨_, rfl, levels_put s b.done b.frames⟩

/-- **A branch is the level of a choice**, with what its line opens. -/
theorem beginBranch_tracks (hreads : ∀ q ∈ p.behind, q.ReadsAlone) (branches : List Branch)
    (condition : Option Expr) (b : Blocks) :
    ∃ b', beginBranch branches condition p b = .ok b'
      ∧ levels b'.frames = Level.branch condition.isNone p (levels b.frames)
      ∧ Settled b'.frames := by
  rw [beginBranch, Level.branch]
  rw [Phrase.behind] at hreads ⊢
  cases hq : p.inlineBody? with
  | none => exact ⟨_, rfl, rfl, fun h => by cases h⟩
  | some q =>
    rw [hq] at hreads
    exact begin_tracks hreads (b.push (.choice branches condition true []))

/-- **The blocks follow the automaton**: where a statement is allowed, the levels are those of the
blocks behind it, and where it is not, it is refused on the line given. -/
inductive Tracks (line : Nat) : Option (List Level) → Except Error Blocks → Prop
  | ok {stack : List Level} {b : Blocks} (hlevels : levels b.frames = stack)
      (hsettled : Settled b.frames) : Tracks line (some stack) (.ok b)
  | error {problem : Problem} (hcategory : problem.category = .unexpectedToken) :
      Tracks line none (.error (.script problem line))

/-- A block is closed by a lone `end`, and by nothing else. -/
theorem close_tracks (kind : BlockKind) (s : Stmt) (b : Blocks) :
    Tracks p.firstLine (if p.isOnly "end" then some (levels b.frames) else none)
      (close kind s p b) := by
  obtain ⟨hlevels, hsettled⟩ := levels_put s b.done b.frames
  rw [close]
  split
  · exact .ok hlevels hsettled
  · exact .error rfl

theorem close_refuses (h : p.startsWith "end" = false) (kind : BlockKind) (s : Stmt) (b : Blocks) :
    Tracks p.firstLine none (close kind s p b) := by
  have honly : p.isOnly "end" = false := by
    rw [Phrase.isOnly, beq_eq_false_iff_ne]
    intro heq
    rw [Phrase.startsWith, Phrase.hasText, ← List.getElem?_map, heq, beq_eq_false_iff_ne] at h
    exact h rfl
  have hclose := @close_tracks p kind s b
  rwa [honly] at hclose

/-! ## Statements by their first word -/

/-- A statement begins with one word. -/
theorem startsWith_eq_false {text other : String} (h : p.startsWith other = true)
    (hne : other ≠ text) : p.startsWith text = false := by
  rw [Phrase.startsWith, Phrase.hasText, beq_iff_eq] at h
  rw [Phrase.startsWith, Phrase.hasText, h, beq_eq_false_iff_ne]
  exact fun heq => hne (Option.some.inj heq)

/-- `elif` and `else` are refused unless they begin a branch of the innermost choice. -/
theorem refuses_branch {b : Blocks} (hb : Settled b.frames) (hterm : isTerminator p = true)
    (hend : p.startsWith "end" = false)
    (hbranch : (∃ branches c isInline body outer,
        b.frames = .choice branches (some c) isInline body :: outer) →
      p.startsWith "elif" = false ∧ p.startsWith "else" = false) :
    Tracks p.firstLine none (b.feed p) := by
  obtain ⟨_ | ⟨_ | _ | ⟨branches, condition, isInline, body⟩, outer⟩, done⟩ := b
  · rw [feed]
    simp only [hterm]
    exact .error rfl
  · rw [feed]
    simp only [hterm, if_true]
    exact close_refuses hend _ _ _
  · exact absurd hb id
  · rw [feed]
    simp only [hterm, Bool.true_or, if_true]
    cases condition with
    | none => exact close_refuses hend _ _ _
    | some c =>
      obtain ⟨helif, helse⟩ := hbranch ⟨_, _, _, _, _, rfl⟩
      simp only [helif, helse]
      exact close_refuses hend _ _ _

/-- **A further branch begins** where the innermost level is a choice that has not seen `else`. -/
theorem branch_tracks {b : Blocks} {condition : Option Expr} (hb : Settled b.frames)
    (hterm : isTerminator p = true) (hend : p.startsWith "end" = false)
    (hreads : ∀ q ∈ p.behind, q.ReadsAlone)
    (hfeed : ∀ branches c isInline body outer done,
      feed p ⟨.choice branches (some c) isInline body :: outer, done⟩
        = beginBranch ((c, body.reverse) :: branches) condition p ⟨outer, done⟩) :
    Tracks p.firstLine
      (match levels b.frames with
        | .choice _ false :: outer => some (Level.branch condition.isNone p outer)
        | _ => none)
      (b.feed p) := by
  obtain ⟨_ | ⟨_ | _ | ⟨branches, _ | c, isInline, body⟩, outer⟩, done⟩ := b
  · exact refuses_branch hb hterm hend (by simp)
  · exact refuses_branch hb hterm hend (by simp)
  · exact absurd hb id
  · exact refuses_branch hb hterm hend (by simp)
  · obtain ⟨b', hbranch, hlevels, hsettled⟩ :=
      beginBranch_tracks hreads ((c, body.reverse) :: branches) condition ⟨outer, done⟩
    rw [hfeed, hbranch]
    exact .ok hlevels hsettled

/-- `elif` begins a branch if its condition is read. -/
theorem elif_tracks {b : Blocks} (hb : Settled b.frames) (helif : p.startsWith "elif" = true)
    (hcondition : p.readCondition.isOk) (hreads : ∀ q ∈ p.behind, q.ReadsAlone) :
    Tracks p.firstLine
      (match levels b.frames with
        | .choice _ false :: outer => some (Level.branch false p outer)
        | _ => none)
      (b.feed p) := by
  have hterm : isTerminator p = true := by rw [isTerminator, helif]; rfl
  have hend : p.startsWith "end" = false := startsWith_eq_false helif (by decide)
  cases hc : p.readCondition with
  | error e =>
    rw [hc] at hcondition
    cases hcondition
  | ok c =>
    refine @branch_tracks _ _ (some c) hb hterm hend hreads ?_
    intro branches c' isInline body outer done
    rw [feed]
    simp only [helif, if_true, hc, bind, Except.bind]

/-- `else` begins one if it has no condition. -/
theorem else_tracks {b : Blocks} (hb : Settled b.frames) (helse : p.startsWith "else" = true)
    (hcheck : p.checkElse.isOk) (hreads : ∀ q ∈ p.behind, q.ReadsAlone) :
    Tracks p.firstLine
      (match levels b.frames with
        | .choice _ false :: outer => some (Level.branch true p outer)
        | _ => none)
      (b.feed p) := by
  have hterm : isTerminator p = true := by rw [isTerminator, helse, Bool.or_true]; rfl
  have helif : p.startsWith "elif" = false := startsWith_eq_false helse (by decide)
  have hend : p.startsWith "end" = false := startsWith_eq_false helse (by decide)
  cases hc : p.checkElse with
  | error e =>
    rw [hc] at hcheck
    cases hcheck
  | ok _ =>
    refine @branch_tracks _ _ none hb hterm hend hreads ?_
    intro branches c isInline body outer done
    rw [feed]
    simp only [helif, helse, if_true, hc, bind, Except.bind]
    rfl

/-- `end` closes the innermost level, provided that it stands alone. -/
theorem end_tracks {b : Blocks} (hb : Settled b.frames) (hterm : isTerminator p = true)
    (helif : p.startsWith "elif" = false) (helse : p.startsWith "else" = false) :
    Tracks p.firstLine
      (match levels b.frames with
        | _ :: outer => if p.isOnly "end" then some outer else none
        | [] => none)
      (b.feed p) := by
  obtain ⟨_ | ⟨_ | _ | ⟨branches, condition, isInline, body⟩, outer⟩, done⟩ := b
  · rw [feed]
    simp only [hterm]
    exact .error rfl
  · rw [feed]
    simp only [hterm, if_true]
    exact close_tracks _ _ ⟨outer, done⟩
  · exact absurd hb id
  · rw [feed]
    simp only [hterm, Bool.true_or, if_true, helif, helse]
    cases condition with
    | none => exact close_tracks _ _ ⟨outer, done⟩
    | some c => exact close_tracks _ _ ⟨outer, done⟩

/-- Any other statement begins where it stands, but not behind the one statement of a branch on its
header's line. -/
theorem other_tracks {b : Blocks} (hb : Settled b.frames) (hterm : isTerminator p = false)
    (hreads : ∀ q ∈ p.chain, q.ReadsAlone) :
    Tracks p.firstLine
      (match levels b.frames with
        | .choice true _ :: _ => none
        | _ => some (p.chain.foldl Level.push (levels b.frames)))
      (b.feed p) := by
  have hwords := hterm
  rw [isTerminator, Bool.or_eq_false_iff, Bool.or_eq_false_iff] at hwords
  have hbegin : Tracks p.firstLine (some (p.chain.foldl Level.push (levels b.frames)))
      (b.begin p) := by
    obtain ⟨b', hbegin, hlevels, hsettled⟩ := begin_tracks hreads b
    rw [hbegin]
    exact .ok hlevels hsettled
  obtain ⟨_ | ⟨_ | _ | ⟨branches, condition, isInline, body⟩, outer⟩, done⟩ := b
  · rw [feed]
    simp only [hterm]
    exact hbegin
  · rw [feed]
    simp only [hterm]
    exact hbegin
  · exact absurd hb id
  · cases isInline with
    | false =>
      rw [feed]
      simp only [hterm, Bool.false_or, Bool.false_and, hwords.1.1, hwords.1.2]
      cases condition <;> exact hbegin
    | true =>
      have hbody : body.isEmpty = false := by
        rw [List.isEmpty_eq_false_iff]
        exact hb rfl
      rw [feed]
      simp only [hterm, Bool.false_or, Bool.true_and, hbody, Bool.not_false, if_true, hwords.1.1,
        hwords.1.2]
      cases condition <;> exact close_refuses hwords.2 _ _ _

/-- **A statement does to the blocks what the automaton says.** -/
theorem feed_tracks {b : Blocks} (hb : Settled b.frames) (hp : p.PartsRead) :
    Tracks p.firstLine (Level.step (levels b.frames) p) (b.feed p) := by
  rw [Phrase.PartsRead] at hp
  unfold Level.step
  cases helif : p.startsWith "elif" with
  | true =>
    rw [helif, if_pos rfl] at hp
    exact elif_tracks hb helif hp.1 hp.2
  | false =>
    rw [helif, if_neg Bool.false_ne_true] at hp
    cases helse : p.startsWith "else" with
    | true =>
      rw [helse, if_pos rfl] at hp
      exact else_tracks hb helse hp.1 hp.2
    | false =>
      rw [helse, if_neg Bool.false_ne_true] at hp
      cases hend : p.startsWith "end" with
      | true =>
        have hterm : isTerminator p = true := by rw [isTerminator, hend, Bool.or_true]
        exact end_tracks hb hterm helif helse
      | false =>
        rw [hend, if_neg Bool.false_ne_true] at hp
        have hterm : isTerminator p = false := by rw [isTerminator, helif, helse, hend]; rfl
        exact other_tracks hb hterm hp

/-- **So do statements one after another**, up to the first one that is not allowed. -/
theorem feedAll_tracks {lines : List (List Token)} {b : Blocks} (hb : Settled b.frames)
    (hlines : ∀ ts ∈ lines, (Phrase.whole ts).PartsRead) :
    (∀ stack, Level.run (levels b.frames) lines = some stack → ∃ b', feedAll lines b = .ok b'
        ∧ levels b'.frames = stack ∧ Settled b'.frames)
      ∧ (Level.run (levels b.frames) lines = none → ∃ as ts bs stack problem,
          lines = as ++ ts :: bs ∧ Level.run (levels b.frames) as = some stack
            ∧ Level.step stack (.whole ts) = none ∧ problem.category = .unexpectedToken
            ∧ feedAll lines b = .error (.script problem (Phrase.whole ts).firstLine)) := by
  induction lines generalizing b with
  | nil =>
    refine ⟨fun stack hrun => ?_, fun hrun => ?_⟩
    · cases hrun
      exact ⟨b, rfl, rfl, hb⟩
    · cases hrun
  | cons ts lines ih =>
    obtain ⟨hts, hlines⟩ := List.forall_mem_cons.mp hlines
    have hfeed := feed_tracks hb hts
    rw [Level.run_cons, feedAll]
    generalize hstep : Level.step (levels b.frames) (.whole ts) = next at hfeed ⊢
    generalize b.feed (.whole ts) = x at hfeed ⊢
    cases hfeed with
    | @ok stack b' hlevels hsettled =>
      subst hlevels
      obtain ⟨hallowed, hrefused⟩ := ih hsettled hlines
      refine ⟨hallowed, fun hrun => ?_⟩
      obtain ⟨as, us, bs, stack, problem, rfl, has, hus, hcategory, herror⟩ := hrefused hrun
      refine ⟨ts :: as, us, bs, stack, problem, rfl, ?_, hus, hcategory, herror⟩
      rw [Level.run_cons, hstep]
      exact has
    | @error problem hcategory =>
      refine ⟨fun stack hrun => ?_,
        fun _ => ⟨[], ts, lines, _, problem, rfl, rfl, hstep, hcategory, rfl⟩⟩
      cases hrun

end Blocks

/-- Where no level is open and no line is unfinished, no frame is. -/
theorem eq_nil_of_levels_eq_nil {frames : List Frame} (h : levels frames = [])
    (hsettled : Settled frames) : frames = [] := by
  obtain _ | ⟨_ | _ | _, outer⟩ := frames
  · rfl
  · cases h
  · exact absurd hsettled id
  · cases h

/-! ## Scripts -/

section Scripts

variable {source : String} (hlexes : (Source.ofString source).Lexes)
  (hparts : ∀ ts ∈ (Source.ofString source).statements, (Phrase.whole ts).PartsRead)
include hlexes hparts

/-- What is accepted is read. -/
theorem Script.read_of_accepted
    (hrun : Level.run [] (Source.ofString source).statements = some []) :
    ∃ c, Script.read source = .ok c := by
  have hempty : Settled Blocks.empty.frames := trivial
  obtain ⟨b, hfed, hlevels, hsettled⟩ := (feedAll_tracks hempty hparts).1 _ hrun
  rw [Script.read_of_feeds hlexes hfed, finish, eq_nil_of_levels_eq_nil hlevels hsettled]
  exact ⟨_, rfl⟩

/-- What leaves a level open is refused at the end of the source. -/
theorem Script.read_of_open {level : Level} {outer : List Level}
    (hrun : Level.run [] (Source.ofString source).statements = some (level :: outer)) :
    ∃ kind, Script.read source
      = .error (.script (.endMissing kind) (Source.ofString source).lastScan.source.line) := by
  have hempty : Settled Blocks.empty.frames := trivial
  obtain ⟨b, hfed, hlevels, -⟩ := (feedAll_tracks hempty hparts).1 _ hrun
  rw [Script.read_of_feeds hlexes hfed, finish]
  cases hframes : b.frames with
  | nil =>
    rw [hframes] at hlevels
    cases hlevels
  | cons f outer => exact ⟨_, rfl⟩

omit hlexes in
/-- What is rejected is refused in the statement that is not allowed. -/
theorem Script.read_of_rejected
    (hrun : Level.run [] (Source.ofString source).statements = none) :
    ∃ as ts bs stack problem, (Source.ofString source).statements = as ++ ts :: bs
      ∧ Level.run [] as = some stack ∧ Level.step stack (.whole ts) = none
      ∧ problem.category = .unexpectedToken
      ∧ Script.read source = .error (.script problem (Phrase.whole ts).firstLine) := by
  have hempty : Settled Blocks.empty.frames := trivial
  obtain ⟨as, ts, bs, stack, problem, hlines, has, hts, hcategory, herror⟩ :=
    (feedAll_tracks hempty hparts).2 hrun
  refine ⟨as, ts, bs, stack, problem, hlines, has, hts, hcategory, ?_⟩
  rw [Script.read_statements, herror]
  rfl

/-- **Block structure is that of the automaton.**  If a source has no flaw and the parts of its
statements are read, each on its own, a script is read just if the automaton accepts the statements.
Otherwise `end` is missing at the end of the source, or a statement that is not allowed where it
stands is refused on its first line. -/
theorem Script.read_iff_accepted :
    ((∃ c, Script.read source = .ok c)
        ↔ Level.run [] (Source.ofString source).statements = some [])
      ∧ (∀ level outer, Level.run [] (Source.ofString source).statements = some (level :: outer) →
          ∃ kind, Script.read source
            = .error (.script (.endMissing kind) (Source.ofString source).lastScan.source.line))
      ∧ (Level.run [] (Source.ofString source).statements = none → ∃ as ts bs stack problem,
          (Source.ofString source).statements = as ++ ts :: bs ∧ Level.run [] as = some stack
            ∧ Level.step stack (.whole ts) = none ∧ problem.category = .unexpectedToken
            ∧ Script.read source = .error (.script problem (Phrase.whole ts).firstLine)) := by
  refine ⟨⟨fun ⟨c, hc⟩ => ?_, Script.read_of_accepted hlexes hparts⟩,
    fun _ _ => Script.read_of_open hlexes hparts, Script.read_of_rejected hparts⟩
  cases hrun : Level.run [] (Source.ofString source).statements with
  | none =>
    obtain ⟨_, _, _, _, _, -, -, -, -, herror⟩ := Script.read_of_rejected hparts hrun
    cases hc.symm.trans herror
  | some stack =>
    cases stack with
    | nil => rfl
    | cons level outer =>
      obtain ⟨kind, herror⟩ := Script.read_of_open hlexes hparts hrun
      cases hc.symm.trans herror

end Scripts

/-- A block that begins on the line of a branch, and a further branch behind its end. -/
theorem Script.read_iff_accepted_inline :
    let source := "if a : while b\nx = 1\nend\nelse : y\nend"
    Level.run [] (Source.ofString source).statements = some []
      ∧ ∃ c, Script.read source = .ok c := by
  intro source
  have hlexes : (Source.ofString source).Lexes := by decide +kernel
  have hparts : ∀ ts ∈ (Source.ofString source).statements, (Phrase.whole ts).PartsRead := by
    decide +kernel
  have hrun : Level.run [] (Source.ofString source).statements = some [] := by decide +kernel
  exact ⟨hrun, (Script.read_iff_accepted hlexes hparts).1.mpr hrun⟩

end ScriptReader

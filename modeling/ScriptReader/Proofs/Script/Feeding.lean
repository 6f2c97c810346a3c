import ScriptReader.Proofs.Script.Headers

/-!
# Proofs/Script/Feeding — what the lines of a statement leave behind

`Begins x` says that wherever a statement may begin, reading the lines of `x` one after another puts
the statement in place and leaves everything around it as it was.  It holds of every written
statement (`Stmt.Written.begins`), by induction on how the statement is written: the bodies of a
statement are read into its own frame, which its last line closes.
-/

namespace ScriptReader

namespace Blocks

/-- Reads lines one after another. -/
def feedAll : List (List Token) → Blocks → Except Error Blocks
  | [], b => .ok b
  | ts :: lines, b => (b.feed (.whole ts)).bind (feedAll lines)

theorem feedAll_append (as bs : List (List Token)) (b : Blocks) :
    feedAll (as ++ bs) b = (feedAll as b).bind (feedAll bs) := by
  induction as generalizing b with
  | nil => rfl
  | cons ts as ih =>
    rw [List.cons_append, feedAll, feedAll]
    cases b.feed (.whole ts) with
    | error e => rfl
    | ok b => exact ih b

theorem bind_feedAll_append (x : Except Error Blocks) (as bs : List (List Token)) :
    x.bind (feedAll (as ++ bs)) = (x.bind (feedAll as)).bind (feedAll bs) := by
  cases x with
  | error e => rfl
  | ok b => exact feedAll_append as bs b

theorem feedAll_singleton (ts : List Token) (b : Blocks) :
    feedAll [ts] b = b.feed (.whole ts) := by
  rw [feedAll]
  cases b.feed (.whole ts) <;> rfl

/-! ## Lines that end a body -/

theorem isTerminator_eq_false {p : Phrase} {t : Token} {ts : List Token} (hp : p.tokens = t :: ts)
    (ht : t.text ∉ ["elif", "else", "end"]) : isTerminator p = false := by
  simp only [List.mem_cons, List.not_mem_nil, or_false, not_or] at ht
  rw [isTerminator, Phrase.startsWith_eq hp, Phrase.startsWith_eq hp, Phrase.startsWith_eq hp,
    Bool.or_eq_false_iff, Bool.or_eq_false_iff]
  exact ⟨⟨beq_false_of_ne ht.1, beq_false_of_ne ht.2.1⟩, beq_false_of_ne ht.2.2⟩

section Close

variable {last : Token} (hlast : last.Spells "end")
include hlast

theorem isOnly_end : (Phrase.whole [last]).isOnly "end" = true := by
  rw [Phrase.isOnly, Phrase.whole, List.map_singleton, hlast.text_eq]
  rfl

theorem startsWith_end (text : String) :
    (Phrase.whole [last]).startsWith text = ("end" == text) := by
  have hp : (Phrase.whole [last]).tokens = [last] := rfl
  rw [Phrase.startsWith_eq hp, hlast.text_eq]

theorem isTerminator_end : isTerminator (.whole [last]) = true := by
  rw [isTerminator, startsWith_end hlast "end", beq_self_eq_true, Bool.or_true]

theorem close_end (kind : BlockKind) (s : Stmt) (b : Blocks) :
    close kind s (.whole [last]) b = .ok (put s b.done b.frames) := by
  rw [close, if_pos (isOnly_end hlast)]

/-- `end` closes a block. -/
theorem feed_end_block (o : Opening) (body : List Stmt) (outer : List Frame) (done : List Stmt) :
    feed (.whole [last]) ⟨.block o body :: outer, done⟩
      = .ok (put (o.close body.reverse) done outer) := by
  rw [feed]
  simp only [isTerminator_end hlast, if_true, close_end hlast]

/-- `end` closes a choice, whatever branch is being read. -/
theorem feed_end_choice (branches : List Branch) (condition : Option Expr) (isInline : Bool)
    (body : List Stmt) (outer : List Frame) (done : List Stmt) :
    feed (.whole [last]) ⟨.choice branches condition isInline body :: outer, done⟩
      = .ok (put (closeChoice branches condition body) done outer) := by
  rw [feed]
  simp only [isTerminator_end hlast, Bool.true_or, if_true, close_end hlast]
  cases condition with
  | none => rfl
  | some c =>
    simp only [startsWith_end hlast]
    rfl

end Close

/-! ## Statements in a body -/

/-- A place for statements: what is put there is added, and any line that ends no body begins a
statement there. -/
structure Accumulates (place : List Stmt → Blocks) : Prop where
  put_eq : ∀ acc s, put s (place acc).done (place acc).frames = place (s :: acc)
  feed_eq : ∀ acc p, isTerminator p = false → feed p (place acc) = begin p (place acc)

theorem accumulates_nil : Accumulates fun acc => ⟨[], acc⟩ where
  put_eq acc s := by rw [put]
  feed_eq acc p hp := by
    rw [feed]
    simp only [hp]
    rfl

theorem accumulates_block (o : Opening) (outer : List Frame) (done : List Stmt) :
    Accumulates fun acc => ⟨.block o acc :: outer, done⟩ where
  put_eq acc s := by rw [put]
  feed_eq acc p hp := by
    rw [feed]
    simp only [hp]
    rfl

theorem accumulates_choice (branches : List Branch) (condition : Option Expr) (outer : List Frame)
    (done : List Stmt) :
    Accumulates fun acc => ⟨.choice branches condition false acc :: outer, done⟩ where
  put_eq acc s := by rw [put]
  feed_eq acc p hp := by
    have hp' := hp
    rw [isTerminator, Bool.or_eq_false_iff, Bool.or_eq_false_iff] at hp'
    rw [feed]
    simp only [hp, hp'.1.1, hp'.1.2]
    cases condition <;> rfl

end Blocks

open Blocks

/-! ## Written statements are put in place -/

/-- **Wherever a statement may begin, these lines put it in place.** -/
structure Begins (x : WrittenStmt) : Prop where
  head : ∃ t rest, x.first = t :: rest ∧ t.text ∉ ["elif", "else", "end"]
  feeds : ∀ (frames : List Frame) (done : List Stmt) (p : Phrase), p.tokens = x.first →
    (begin p ⟨frames, done⟩).bind (feedAll x.below) = .ok (put x.stmt done frames)

/-- **A body is read where statements are accumulated.** -/
theorem feedAll_body {place : List Stmt → Blocks} (hplace : Accumulates place)
    {body : List WrittenStmt} (hbody : ∀ x ∈ body, Begins x) (acc : List Stmt) :
    feedAll (body.flatMap WrittenStmt.lines) (place acc)
      = .ok (place ((body.map (·.stmt)).reverse ++ acc)) := by
  induction body generalizing acc with
  | nil => rfl
  | cons x body ih =>
    have hx := hbody x List.mem_cons_self
    obtain ⟨t, rest, hfirst, ht⟩ := hx.head
    have hterm : isTerminator (.whole x.first) = false := isTerminator_eq_false hfirst ht
    have hlines : feedAll x.lines (place acc) = .ok (place (x.stmt :: acc)) := by
      rw [WrittenStmt.lines, feedAll, hplace.feed_eq acc _ hterm]
      exact (hx.feeds _ _ (.whole x.first) rfl).trans
        (congrArg Except.ok (hplace.put_eq acc x.stmt))
    rw [List.flatMap_cons, feedAll_append, hlines]
    refine (ih (fun y hy => hbody y (List.mem_cons_of_mem _ hy)) _).trans ?_
    rw [List.map_cons, List.reverse_cons, List.append_assoc, List.singleton_append]

/-- What begins with a line, by what the line is. -/
theorem begin_eq (p : Phrase) (b : Blocks) :
    begin p b = (Line.read p).bind fun
      | .complete s => .ok (put s b.done b.frames)
      | .opening o none => .ok (b.push (.block o []))
      | .opening o (some q) => begin q (b.push (.awaiting o))
      | .choice condition none => .ok (b.push (.choice [] (some condition) false []))
      | .choice condition (some q) => begin q (b.push (.choice [] (some condition) true [])) := by
  rw [begin]
  split <;> next h => rw [h]; rfl

/-- A choice begins with its first branch. -/
theorem begin_choice {p : Phrase} {b : Blocks} {condition : Expr}
    (h : Line.read p = .ok (.choice condition p.inlineBody?)) :
    begin p b = beginBranch [] (some condition) p b := by
  rw [begin_eq, h, beginBranch]
  cases p.inlineBody? <;> rfl

/-! ## Branches -/

/-- The colon behind a header, if anything is behind it. -/
theorem Suite.head_tail {s : Suite} (hc : ∀ t ∈ s.colon?, t.Spells ":") :
    ∀ t ∈ s.tail.head?, t.text = ":" := by
  cases s with
  | below colon? body =>
    rw [tail, Option.head?_toList]
    exact fun t ht => (hc t ht).text_eq
  | beside colon x => exact fun t ht => (hc t ht).text_eq

/-- The body of a branch is read into the frame of the choice. -/
theorem feedAll_suite {s : Suite} (hs : ∀ x ∈ s.statements, Begins x)
    (hc : ∀ t ∈ s.colon?, t.Spells ":") {p : Phrase} {header : List Token}
    (hp : p.tokens = header ++ s.tail) (hh : Hides ":" header) (branches : List Branch)
    (condition : Option Expr) (outer : List Frame) (done : List Stmt) :
    (beginBranch branches condition p ⟨outer, done⟩).bind (feedAll s.lines)
      = .ok ⟨.choice branches condition s.isBeside s.body.reverse :: outer, done⟩ := by
  cases s with
  | below colon? body =>
    have hnone : p.inlineBody? = none := by
      refine Phrase.inlineBody?_eq_none hp hh (Suite.head_tail hc) ?_
      cases colon? <;> simp [Suite.tail]
    rw [beginBranch, hnone]
    have hbody := feedAll_body (accumulates_choice branches condition outer done) hs []
    rw [List.append_nil] at hbody
    exact hbody
  | beside colon x =>
    have hx : Begins x := hs x (List.mem_singleton.mpr rfl)
    obtain ⟨t, rest, hfirst, -⟩ := hx.head
    obtain ⟨q, hq, hqtokens⟩ := Phrase.exists_inlineBody? hp hh rfl (hc colon rfl).text_eq
      (by rw [hfirst]; exact List.cons_ne_nil _ _)
    rw [beginBranch, hq]
    exact hx.feeds _ _ q hqtokens

/-- A further branch ends the one before it. -/
theorem feed_elif {p : Phrase} {keyword : Token} {ts : List Token} {condition c : Expr}
    (hp : p.tokens = keyword :: ts) (hk : keyword.Spells "elif")
    (hc : p.readCondition = .ok condition) (branches : List Branch) (isInline : Bool)
    (body : List Stmt) (outer : List Frame) (done : List Stmt) :
    feed p ⟨.choice branches (some c) isInline body :: outer, done⟩
      = beginBranch ((c, body.reverse) :: branches) (some condition) p ⟨outer, done⟩ := by
  have hstart : p.startsWith "elif" = true := by
    rw [Phrase.startsWith_eq hp, hk.text_eq, beq_self_eq_true]
  rw [feed]
  simp only [hstart, if_true, hc, bind, Except.bind]

theorem feed_else {p : Phrase} {keyword : Token} {ts : List Token} {c : Expr}
    (hp : p.tokens = keyword :: ts) (hk : keyword.Spells "else") (hend : p.headerEnd = 1)
    (branches : List Branch) (isInline : Bool) (body : List Stmt) (outer : List Frame)
    (done : List Stmt) :
    feed p ⟨.choice branches (some c) isInline body :: outer, done⟩
      = beginBranch ((c, body.reverse) :: branches) none p ⟨outer, done⟩ := by
  have helif : p.startsWith "elif" = false := by
    rw [Phrase.startsWith_eq hp, hk.text_eq]
    rfl
  have helse : p.startsWith "else" = true := by
    rw [Phrase.startsWith_eq hp, hk.text_eq, beq_self_eq_true]
  have hcheck : p.checkElse = .ok () := by
    rw [Phrase.checkElse, Phrase.readHeader, hend]
    rfl
  rw [feed]
  simp only [helif, helse, if_true, hcheck, bind, Except.bind]
  rfl

/-- A branch with its condition, where a statement or a further branch begins. -/
structure BeginsBranch (b : WrittenBranch) : Prop where
  condition : Written 0 b.condition b.conditionTokens
  colon : ∀ t ∈ b.suite.colon?, t.Spells ":"
  body : ∀ x ∈ b.suite.statements, Begins x

section Branch

variable {b : WrittenBranch} (hb : BeginsBranch b) {text : String} (hk : b.keyword.Spells text)
  (htext : text ∈ statementWords)
include hb hk htext

theorem readCondition_branch {p : Phrase} (hp : p.tokens = b.first) :
    p.readCondition = .ok (b.condition.placed .value) :=
  Phrase.readCondition_eq hp hk htext hb.condition (Suite.head_tail hb.colon)

theorem feedAll_branch {p : Phrase} (hp : p.tokens = b.first) (branches : List Branch)
    (outer : List Frame) (done : List Stmt) :
    (beginBranch branches (some (b.condition.placed .value)) p ⟨outer, done⟩).bind
        (feedAll b.suite.lines)
      = .ok ⟨.choice branches (some (b.condition.placed .value)) b.suite.isBeside
          b.suite.body.reverse :: outer, done⟩ := by
  have hsplit : p.tokens = b.keyword :: b.conditionTokens ++ b.suite.tail := hp
  exact feedAll_suite hb.body hb.colon hsplit (hb.condition.hides_condition hk htext) _ _ _ _

end Branch

/-- **Branches are gathered in order**, the last one being read. -/
theorem feedAll_branches {bs : List WrittenBranch} (hbs : ∀ b ∈ bs, BeginsBranch b)
    (hk : ∀ b ∈ bs, b.keyword.Spells "elif") (branches : List Branch) (c : Expr) (isInline : Bool)
    (body : List Stmt) (outer : List Frame) (done : List Stmt) :
    ∃ branches' c' isInline' body',
      (c', body'.reverse) :: branches'
          = (bs.map (·.branch)).reverse ++ (c, body.reverse) :: branches
        ∧ feedAll (bs.flatMap WrittenBranch.lines)
            ⟨.choice branches (some c) isInline body :: outer, done⟩
          = .ok ⟨.choice branches' (some c') isInline' body' :: outer, done⟩ := by
  induction bs generalizing branches c isInline body with
  | nil => exact ⟨branches, c, isInline, body, rfl, rfl⟩
  | cons b bs ih =>
    have hb := hbs b List.mem_cons_self
    have hkb := hk b List.mem_cons_self
    have hcondition : (Phrase.whole b.first).readCondition = .ok (b.condition.placed .value) :=
      readCondition_branch hb hkb (by decide) rfl
    have hlines : feedAll b.lines ⟨.choice branches (some c) isInline body :: outer, done⟩
        = .ok ⟨.choice ((c, body.reverse) :: branches) (some (b.condition.placed .value))
            b.suite.isBeside b.suite.body.reverse :: outer, done⟩ := by
      rw [WrittenBranch.lines, feedAll, feed_elif rfl hkb hcondition]
      exact feedAll_branch hb hkb (by decide) rfl _ _ _
    obtain ⟨branches', c', isInline', body', hall, hrest⟩ :=
      ih (fun x hx => hbs x (List.mem_cons_of_mem _ hx))
        (fun x hx => hk x (List.mem_cons_of_mem _ hx)) ((c, body.reverse) :: branches)
        (b.condition.placed .value) b.suite.isBeside b.suite.body.reverse
    refine ⟨branches', c', isInline', body', ?_, ?_⟩
    · rw [hall, List.map_cons, List.reverse_cons, List.append_assoc, List.reverse_reverse]
      rfl
    · rw [List.flatMap_cons, feedAll_append, hlines]
      exact hrest

/-- The last branch, if there is one without a condition, and the end of the choice. -/
theorem feedAll_choice_end {otherwise : Option WrittenElse} {last : Token}
    (hk : ∀ x ∈ otherwise, x.keyword.Spells "else")
    (hcolon : ∀ x ∈ otherwise, ∀ t ∈ x.suite.colon?, t.Spells ":")
    (hbody : ∀ x ∈ otherwise, ∀ y ∈ x.suite.statements, Begins y) (hlast : last.Spells "end")
    (branches : List Branch) (c : Expr) (isInline : Bool) (body : List Stmt) (outer : List Frame)
    (done : List Stmt) :
    feedAll (otherwise.toList.flatMap WrittenElse.lines ++ [[last]])
        ⟨.choice branches (some c) isInline body :: outer, done⟩
      = .ok (put (.choice ((c, body.reverse) :: branches).reverse
          (otherwise.map (·.suite.body))) done outer) := by
  cases otherwise with
  | none =>
    rw [Option.toList_none, List.flatMap_nil, List.nil_append, feedAll_singleton,
      feed_end_choice hlast]
    rfl
  | some x =>
    have hkx := hk x rfl
    have hcx := hcolon x rfl
    have hhides : Hides ":" [x.keyword] := Hides.nil.keyword hkx (by decide)
    have htokens : (Phrase.whole (x.keyword :: x.suite.tail)).tokens
        = [x.keyword] ++ x.suite.tail := rfl
    have hend : (Phrase.whole (x.keyword :: x.suite.tail)).headerEnd = 1 :=
      Phrase.headerEnd_of_tail htokens hhides (Suite.head_tail hcx)
    have hlines : feedAll x.lines ⟨.choice branches (some c) isInline body :: outer, done⟩
        = .ok ⟨.choice ((c, body.reverse) :: branches) none x.suite.isBeside
            x.suite.body.reverse :: outer, done⟩ := by
      rw [WrittenElse.lines, feedAll, feed_else rfl hkx hend]
      exact feedAll_suite (hbody x rfl) hcx htokens hhides _ _ _ _
    rw [Option.toList_some, List.flatMap_singleton, feedAll_append, hlines]
    refine (feedAll_singleton _ _).trans ?_
    rw [feed_end_choice hlast, closeChoice, List.reverse_reverse]
    rfl

/-! ## Every statement -/

theorem not_mem_terminators {text : String} (h : text ∉ statementWords) :
    text ∉ ["elif", "else", "end"] := fun ht =>
  h ((by decide : ∀ s ∈ ["elif", "else", "end"], s ∈ statementWords) text ht)

theorem Stmt.WrittenOnLine.head {s : Stmt} {ts : List Token} (h : s.WrittenOnLine ts) :
    ∃ t rest, ts = t :: rest ∧ t.text ∉ ["elif", "else", "end"] := by
  cases h with
  | expression h =>
    obtain ⟨t, rest, hts, ht⟩ := h.head
    exact ⟨t, rest, hts, not_mem_terminators ht⟩
  | print hk => exact ⟨_, _, rfl, by rw [hk.text_eq]; decide⟩
  | @jump kind _ hk => exact ⟨_, _, rfl, by rw [hk.text_eq]; cases kind <;> decide⟩
  | @jumpWith kind _ _ _ _ hk => exact ⟨_, _, rfl, by rw [hk.text_eq]; cases kind <;> decide⟩
  | assign _ ht =>
    obtain ⟨t, rest, rfl, hword⟩ := ht.head
    exact ⟨t, _, rfl, not_mem_terminators hword⟩

theorem Opening.Written.head {o : Opening} {header : List Token} (h : o.Written header) :
    ∃ t rest, header = t :: rest ∧ t.text ∉ ["elif", "else", "end"] := by
  cases h with
  | whileLoop hk => exact ⟨_, _, rfl, by rw [hk.text_eq]; decide⟩
  | forLoop hk => exact ⟨_, _, rfl, by rw [hk.text_eq]; decide⟩
  | function hk => exact ⟨_, _, rfl, by rw [hk.text_eq]; decide⟩

/-- **Every written statement is put in place by its lines.** -/
theorem Stmt.Written.begins {s : Stmt} {first : List Token} {below : List (List Token)}
    (h : s.Written first below) : Begins ⟨s, first, below⟩ := by
  induction h with
  | onLine h =>
    refine ⟨h.head, fun frames done p hp => ?_⟩
    rw [begin_eq, h.read hp]
    rfl
  | @block o header colon? body last ho hc _ hlast ih =>
    obtain ⟨t, rest, hheader, ht⟩ := ho.head
    refine ⟨⟨t, rest ++ colon?.toList, by rw [hheader]; rfl, ht⟩, fun frames done p hp => ?_⟩
    have htail : ∀ t ∈ colon?.toList.head?, t.text = ":" :=
      Suite.head_tail (s := .below colon? []) hc
    have hnone : p.inlineBody? = none :=
      Phrase.inlineBody?_eq_none hp ho.hides htail (by cases colon? <;> simp)
    have hbody := feedAll_body (accumulates_block o frames done) ih []
    rw [List.append_nil] at hbody
    rw [begin_eq, ho.read hp htail, hnone]
    refine (feedAll_append _ _ _).trans ?_
    rw [push, hbody]
    refine (feedAll_singleton _ _).trans ?_
    rw [feed_end_block hlast, List.reverse_reverse]
  | @inline o header colon x ho hc _ ih =>
    obtain ⟨t, rest, hheader, ht⟩ := ho.head
    refine ⟨⟨t, rest ++ colon :: x.first, by rw [hheader]; rfl, ht⟩, fun frames done p hp => ?_⟩
    obtain ⟨t, rest, hfirst, -⟩ := ih.head
    obtain ⟨q, hq, hqtokens⟩ := Phrase.exists_inlineBody? hp ho.hides rfl hc.text_eq
      (by rw [hfirst]; exact List.cons_ne_nil _ _)
    rw [begin_eq, ho.read hp fun t ht => by cases ht; exact hc.text_eq, hq]
    refine (ih.feeds _ _ q hqtokens).trans ?_
    rw [put]
  | @choice b branches otherwise last hif helif helse hconditions hcolons hcolon _ _ hlast
      ihbodies ihbody =>
    refine ⟨⟨_, _, rfl, by rw [hif.text_eq]; decide⟩, fun frames done p hp => ?_⟩
    have hbs (x : WrittenBranch) (hx : x ∈ b :: branches) : BeginsBranch x :=
      ⟨hconditions x hx, hcolons x hx, ihbodies x hx⟩
    have hb := hbs b List.mem_cons_self
    have hcondition := readCondition_branch hb hif (by decide) hp
    have hread : Line.read p = .ok (.choice (b.condition.placed .value) p.inlineBody?) := by
      rw [Line.read_if (by rw [Phrase.textAt_zero hp, hif.text_eq]), hcondition]
      rfl
    have hfirst := feedAll_branch hb hif (by decide) hp [] frames done
    obtain ⟨branches', c', isInline', body', hall, hrest⟩ :=
      feedAll_branches (fun x hx => hbs x (List.mem_cons_of_mem _ hx)) helif []
        (b.condition.placed .value) b.suite.isBeside b.suite.body.reverse frames done
    have hend := feedAll_choice_end helse hcolon ihbody hlast branches' c' isInline' body' frames
      done
    rw [begin_choice hread, List.append_assoc, List.append_assoc, bind_feedAll_append, hfirst,
      bind_feedAll_append]
    simp only [Except.bind, hrest, hend, hall]
    rw [List.reverse_append, List.reverse_reverse, List.reverse_reverse]
    rfl

end ScriptReader

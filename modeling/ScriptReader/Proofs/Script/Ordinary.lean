import ScriptReader.Proofs.Script.Lines
import ScriptReader.Proofs.Script.Sessions
import ScriptReader.Proofs.Script.Within

/-!
# Proofs/Script/Ordinary — reading a script fails in ordinary ways

Every rule for a line reads phrases that are formed from the line, and finds the tokens, the
brackets, the condition and the operator that it looks for, so that it reads the same with every
look-up checked (`Line.agrees_readWithin`, `Blocks.agrees_feedWithin`).  So whatever a source is,
what is wrong with it is said by an ordinary error, and nothing that is asked of a phrase on the way
goes out of bounds (`Script.lookups_succeed`).
-/

namespace ScriptReader

open ScriptReader.Bracket Phrase

variable {root : Phrase} {line : List Token} (hroot : root.Sound line) {p : Phrase}

/-! ## Headers -/

/-- What begins a statement with a word of its own is no bracket. -/
theorem Phrase.isPlain_statementWord (h : p.textAt 0 ∈ statementWords) :
    ∀ t ∈ p.tokens.take 1, t.IsPlain := by
  intro t ht
  cases hts : p.tokens with
  | nil =>
    rw [hts] at ht
    cases ht
  | cons u us =>
    rw [hts] at ht
    obtain rfl := List.mem_singleton.mp ht
    rw [textAt_zero hts] at h
    exact Token.isPlain_of_mem_statementWords h

theorem Phrase.formed_header {pos : Nat} (hf : Formed root p)
    (hplain : ∀ t ∈ p.tokens.take pos, t.IsPlain) : Formed root (p.slice pos p.headerEnd) := by
  rw [headerEnd]
  cases hcolon : p.findOutside? ":" with
  | none => exact hf.tail (.onward hplain)
  | some colon => exact hf.tail (.upTo hplain hcolon)

theorem Phrase.formed_inlineBody? {q : Phrase} (hf : Formed root p)
    (hq : p.inlineBody? = some q) : Formed root q := by
  rw [inlineBody?] at hq
  split at hq
  · next colon hcolon =>
    split at hq
    · cases hq
      exact hf.tail (.behind (by decide) hcolon)
    · cases hq
  · cases hq

/-! ## Checked look-ups -/

namespace Phrase

theorem formedWithin_eq (hf : Formed root p) : root.formedWithin p = .ok p := if_pos hf

theorem formedWithin_bind {β : Type} (hf : Formed root p) (f : Phrase → Except Error β) :
    (root.formedWithin p >>= f) = f p := by
  rw [formedWithin_eq hf]
  rfl

theorem tokenWithin_bind {β : Type} {pos : Nat} {t : Token} (h : p.tokens[pos]? = some t)
    (f : Token → Except Error β) : (p.tokenWithin pos >>= f) = f t := by
  rw [tokenWithin, h]
  rfl

theorem closerWithin_eq (h : p.Sound line) {pos last : Nat} (hlast : p.closerOf pos = .ok last) :
    p.closerWithin pos = .ok last := by
  rw [closerWithin]
  cases hb : Bracket.ofOpenerText? (p.textAt pos) with
  | none =>
    rw [closerOf, hb] at hlast
    cases hlast
  | some b =>
    obtain ⟨k, hcount, hcloser, -⟩ := h.closer (Bracket.eq_openerText_of_ofOpenerText? hb)
    simp only [hcount]
    exact hcloser.symm.trans hlast

theorem openerWithin_eq (h : p.Sound line) {pos first : Nat} (hfirst : p.openerOf pos = .ok first) :
    p.openerWithin pos = .ok first := by
  rw [openerWithin]
  cases hb : Bracket.ofCloserText? (p.textAt pos) with
  | none =>
    rw [openerOf, hb] at hfirst
    cases hfirst
  | some b =>
    obtain ⟨k, hcount, hopener, hle⟩ := h.opener (Bracket.eq_closerText_of_ofCloserText? hb)
    simp only [hcount, if_pos hle]
    exact hopener.symm.trans hfirst

/-- The body on the same line is formed, if there is one. -/
theorem inlineBodyWithin_eq (hf : Formed root p) :
    root.inlineBodyWithin p = .ok p.inlineBody? := by
  rw [inlineBodyWithin, inlineBody?]
  cases hcolon : p.findOutside? ":" with
  | none => rfl
  | some colon =>
    dsimp only
    rw [formedWithin_eq (hf.tail (.behind (by decide) hcolon))]
    split <;> rfl

end Phrase

namespace Expr

include hroot in
theorem agrees_readTargetWithin (hf : Formed root p) (lookup : Lookup) :
    Agrees (readTarget p lookup) (readTargetWithin root p lookup) := by
  refine (agrees_readWithin hroot hf lookup).bind fun e _ => ?_
  split
  · exact .ok _
  · exact .refuse rfl

include hroot in
theorem agrees_readListWithin {separator : String} (hs : separator ∈ [",", ":"])
    (hf : Formed root p) :
    Agrees (readList separator p) (readListWithin root separator p) :=
  Agrees.mapM fun _ hq => agrees_readWithin hroot (hf.tail (.segment hs hq)) _

end Expr

/-! ## Headers -/

include hroot in
theorem agrees_readConditionWithin (hf : Formed root p) (hword : p.textAt 0 ∈ statementWords) :
    Agrees p.readCondition (root.readConditionWithin p) := by
  have hcondition : Formed root (p.slice 1 p.headerEnd) :=
    formed_header hf (isPlain_statementWord hword)
  have hheader : Agrees (p.readHeader .condition) (root.readHeaderWithin .condition p) := by
    rw [readHeader, readHeaderWithin, formedWithin_bind hcondition]
    split
    · exact .refuse rfl
    · exact (Expr.agrees_readWithin hroot hcondition _).map
  refine hheader.bind fun condition? hread => ?_
  obtain ⟨condition, rfl⟩ := exists_of_readHeader_condition hread
  exact .ok condition

theorem agrees_checkElseWithin (root p : Phrase) :
    Agrees p.checkElse (root.checkElseWithin p) := by
  have hheader : Agrees (p.readHeader .nothing) (root.readHeaderWithin .nothing p) := by
    rw [readHeader, readHeaderWithin]
    split
    · next hlt =>
      have hsome : 1 < p.tokens.length := Nat.lt_of_lt_of_le hlt p.headerEnd_le
      have ht : p.tokens[1]? = some p.tokens[1] := List.getElem?_eq_getElem hsome
      rw [tokenWithin_bind ht, found, ht]
      exact .refuse rfl
    · exact .ok none
  exact hheader.map

include hroot in
theorem agrees_readForHeaderWithin (hf : Formed root p) (hword : p.textAt 0 ∈ statementWords) :
    Agrees p.readForHeader (root.readForHeaderWithin p) := by
  have hheader : Formed root (p.take p.headerEnd) := formed_header hf nofun
  have hplain : ∀ t ∈ (p.take p.headerEnd).tokens.take 1, t.IsPlain := by
    intro t ht
    rw [tokens_take, List.take_take, Nat.min_comm, ← List.take_take] at ht
    exact isPlain_statementWord hword t (List.mem_of_mem_take ht)
  rw [readForHeader, readForHeaderWithin, formedWithin_bind hheader]
  dsimp only
  cases hpos : (p.take p.headerEnd).findOutside? "in" with
  | none => exact .refuse rfl
  | some pos =>
    have hiterable : Formed root ((p.take p.headerEnd).drop (pos + 1)) :=
      hheader.tail (.behind (by decide) hpos)
    dsimp only
    rw [formedWithin_bind hiterable]
    split
    · exact .refuse rfl
    · refine (Expr.agrees_readTargetWithin hroot (hheader.tail (.upTo hplain hpos)) _).bind
        fun iterator _ => ?_
      exact (Expr.agrees_readWithin hroot hiterable _).bind fun iterable _ => .ok _

include hroot in
theorem agrees_readParameterWithin (all : Phrase) (hf : Formed root p) :
    Agrees (all.readParameter p) (root.readParameterWithin all p) := by
  rw [readParameter, readParameterWithin, isEmpty]
  rcases hts : p.tokens with _ | ⟨t, ts⟩
  · exact .refuse rfl
  · have ht : p.tokens[0]? = some t := by rw [hts]; rfl
    have hsize : p.size = ts.length + 1 := by rw [size, hts]; rfl
    rw [List.isEmpty_cons, if_neg Bool.false_ne_true, tokenWithin_bind ht, hsize]
    rcases ts with _ | ⟨equals, _ | ⟨u, ts⟩⟩
    · dsimp only
      by_cases hkind : t.kind = .identifier
      · rw [if_pos hkind, if_pos ⟨hkind, rfl⟩]
        exact .ok _
      · rw [if_neg hkind, if_neg fun h => hkind h.1, if_neg fun h => hkind h.1]
        exact .refuse rfl
    · rw [if_neg fun h => absurd h.2 (by simp), if_neg fun h => absurd h.2.1 (by simp)]
      exact .refuse rfl
    · rw [if_neg fun h => by simp at h]
      by_cases hnamed : t.kind = .identifier ∧ p.hasText 1 "="
      · have hplain := Expr.isPlain_named (hroot.formed hf).isScanned hts hnamed.1 hnamed.2
        rw [if_pos ⟨hnamed.1, by simp, hnamed.2⟩]
        dsimp only
        rw [if_pos hnamed]
        exact (Expr.agrees_readWithin hroot (hf.tail (.onward hplain)) _).map
      · rw [if_neg fun h => hnamed ⟨h.1, h.2.2⟩]
        dsimp only
        rw [if_neg hnamed]
        exact .refuse rfl

include hroot in
theorem agrees_readFunctionHeaderWithin (hf : Formed root p)
    (hword : p.textAt 0 ∈ statementWords) :
    Agrees p.readFunctionHeader (root.readFunctionHeaderWithin p) := by
  rw [readFunctionHeader, readFunctionHeaderWithin]
  cases hpos : p.findOutside? round.openerText with
  | none => exact .refuse rfl
  | some pos =>
    have hname : Formed root (p.slice 1 pos) :=
      hf.tail (.upTo (isPlain_statementWord hword) hpos)
    obtain ⟨last, hlast, -⟩ := (hroot.formed hf).parameters hpos
    have hall : Formed root (p.slice (pos + 1) last) := hf.tail (.parameters hpos hlast)
    refine (Expr.agrees_readTargetWithin hroot hname _).bind fun name _ => ?_
    split
    · exact .refuse rfl
    · rw [hlast, closerWithin_eq (hroot.formed hf) hlast]
      change Agrees _ (root.formedWithin (p.slice (pos + 1) last) >>= _)
      rw [formedWithin_bind hall]
      refine (Agrees.mapM fun q hq => ?_).bind fun parameters _ => .ok _
      exact agrees_readParameterWithin hroot _ (hall.tail (.segment (by decide) hq))

/-! ## Statements on one line -/

include hroot in
theorem agrees_readJumpWithin (kind : Jump) (hf : Formed root p)
    (hword : p.textAt 0 ∈ statementWords) :
    Agrees (p.readJump kind) (root.readJumpWithin kind p) := by
  have hvalue : Formed root (p.drop 1) := hf.tail (.onward (isPlain_statementWord hword))
  rw [readJump, readJumpWithin, formedWithin_bind hvalue]
  split
  · exact .ok _
  split
  · exact .refuse rfl
  · exact (Expr.agrees_readWithin hroot hvalue _).map

/-- A bracket is opened where it is opened in what stands before a later position. -/
theorem Phrase.openerOf_of_take {pos last first : Nat} (hlt : pos < last)
    (h : (p.take last).openerOf pos = .ok first) : p.openerOf pos = .ok first := by
  have htext : (p.take last).textAt pos = p.textAt pos := by
    rw [textAt, textAt, tokens_take, List.getElem?_take, if_pos hlt]
  have htake : (p.take last).tokens.take (pos + 1) = p.tokens.take (pos + 1) := by
    rw [tokens_take, List.take_take, Nat.min_eq_left hlt]
  rw [openerOf, htext, htake] at h
  rw [openerOf]
  split at h
  · cases h
  · split at h
    · next hpartner => simpa only [hpartner] using h
    · cases h

include hroot in
/-- What stands before an index is formed, and so are the indices, from right to left. -/
theorem agrees_readIndicesWithin (hf : Formed root p) {last : Nat} (later : List Expr)
    (hlast : last ≤ p.size) (htake : Formed root (p.take last)) :
    Agrees (p.readIndices last later) (root.readIndicesWithin p last later)
      ∧ ∀ first indices, p.readIndices last later = .ok (first, indices) →
        Formed root (p.take first) := by
  induction last using Nat.strongRecOn generalizing later with
  | ind last ih =>
    have hnone (h : p.readIndices last later = .ok (last, later)) :
        ∀ first indices, p.readIndices last later = .ok (first, indices) →
          Formed root (p.take first) := fun first indices heq => by
      cases h.symm.trans heq
      exact htake
    cases last with
    | zero =>
      have hread : p.readIndices 0 later = .ok (0, later) := by
        rw [readIndices_unfold, if_neg fun h => Nat.lt_irrefl 0 h.1]
      rw [readIndicesWithin.eq_def]
      exact ⟨hread ▸ .ok _, hnone hread⟩
    | succ pos =>
      rw [readIndicesWithin.eq_def]
      dsimp only
      by_cases hindex : p.hasText pos square.closerText
      · -- the phrase before the position ends in an index
        have hsize : (p.take (pos + 1)).size = pos + 1 := by rw [take, size_slice]; omega
        have htext : (p.take (pos + 1)).hasText ((p.take (pos + 1)).size - 1)
            square.closerText := by
          rw [hasText, tokens_take, List.getElem?_take, hsize, if_pos (by omega)]
          exact hindex
        obtain ⟨first, hlt, hfirst, -⟩ := (hroot.formed htake).index htext
        have hindexed : Formed root (p.take first) := by
          have hcut := htake.tail (.indexed htext hfirst)
          rwa [take, slice_take (Nat.zero_le _) (by omega) hlast] at hcut
        have hvalue : Formed root (p.slice (first + 1) pos) := by
          have hcut := htake.tail (.index htext hfirst)
          rwa [hsize, slice_take (by omega) (Nat.sub_le _ _) hlast] at hcut
        rw [hsize] at hlt hfirst
        have hopener : p.openerOf pos = .ok first := openerOf_of_take (by omega) hfirst
        have hle : first ≤ pos := by omega
        have hread : p.readIndices (pos + 1) later
            = Expr.read (p.slice (first + 1) pos) .value >>= fun index =>
                p.readIndices first (index :: later) := by
          rw [readIndices_unfold, if_pos ⟨Nat.succ_pos _, hindex⟩, Nat.add_sub_cancel, hopener]
          rfl
        rw [hread, if_pos hindex, openerWithin_eq (hroot.formed hf) hopener]
        change Agrees _ (if first ≤ pos then _ else _) ∧ _
        rw [if_pos hle]
        refine ⟨(Expr.agrees_readWithin hroot hvalue .value).bind fun index _ =>
          (ih first (by omega) _ (by omega) hindexed).1, fun first' indices h => ?_⟩
        cases hindex : Expr.read (p.slice (first + 1) pos) .value with
        | error e =>
          rw [hindex] at h
          cases h
        | ok index =>
          rw [hindex] at h
          exact (ih first (by omega) _ (by omega) hindexed).2 first' indices h
      · have hread : p.readIndices (pos + 1) later = .ok (pos + 1, later) := by
          rw [readIndices_unfold, if_neg fun h => hindex h.2]
        rw [if_neg hindex]
        exact ⟨hread ▸ .ok _, hnone hread⟩

include hroot in
theorem agrees_readAssignmentAtWithin (hf : Formed root p) {text : String} {pos : Nat}
    (htext : text ∈ [":", "=", ":=", "in"]) (hpos : p.findOutside? text = some pos)
    (lookup : Lookup) :
    Agrees (p.readAssignmentAt pos lookup) (root.readAssignmentAtWithin pos lookup p) := by
  have hvalue : Formed root (p.drop (pos + 1)) := hf.tail (.behind htext hpos)
  have hbefore : Formed root (p.take pos) := hf.tail (.upTo nofun hpos)
  have hindices := agrees_readIndicesWithin hroot hf []
    (Nat.le_of_lt (findOutside?_lt hpos)) hbefore
  rw [readAssignmentAt, readAssignmentAtWithin, formedWithin_bind hvalue]
  split
  · exact .refuse rfl
  · refine hindices.1.bind fun read hread => ?_
    obtain ⟨last, indices⟩ := read
    refine (Expr.agrees_readTargetWithin hroot (hindices.2 _ _ hread) _).bind fun target _ => ?_
    exact (Expr.agrees_readWithin hroot hvalue _).bind fun value _ => .ok _

include hroot in
theorem agrees_readAssignmentWithin (hf : Formed root p)
    (h : p.hasOutside "=" || p.hasOutside ":=") :
    Agrees p.readAssignment (root.readAssignmentWithin p) := by
  rw [readAssignment, readAssignmentWithin, assignment?]
  rw [hasOutside, hasOutside] at h
  cases hequals : p.findOutside? "=" with
  | some pos => exact agrees_readAssignmentAtWithin hroot hf (by decide) hequals _
  | none =>
    cases hcolon : p.findOutside? ":=" with
    | some pos => exact agrees_readAssignmentAtWithin hroot hf (by decide) hcolon _
    | none =>
      rw [hequals, hcolon] at h
      cases h

/-! ## Lines -/

namespace Line

theorem agrees_ofHeaderWithin {α : Type} (hf : Formed root p) (line : α → Option Phrase → Line)
    {x y : Except Error α} (h : Agrees x y) :
    Agrees ((line · p.inlineBody?) <$> x) (ofHeaderWithin root p line y) := by
  rw [ofHeaderWithin, inlineBodyWithin_eq hf]
  exact h.map

include hroot in
/-- **Every line is read, or refused for an ordinary reason, without a look-up that fails.** -/
theorem agrees_readWithin (hf : Formed root p) :
    Agrees (Line.read p) (Line.readWithin root p) := by
  rw [Line.read]
  split
  · next h =>
    simp only [readWithin, h]
    exact agrees_ofHeaderWithin hf _ (agrees_readConditionWithin hroot hf (h ▸ by decide))
  · next h =>
    simp only [readWithin, h]
    exact agrees_ofHeaderWithin hf _ (agrees_readConditionWithin hroot hf (h ▸ by decide))
  · next h =>
    simp only [readWithin, h]
    exact agrees_ofHeaderWithin hf _ (agrees_readForHeaderWithin hroot hf (h ▸ by decide))
  · next h =>
    simp only [readWithin, h]
    exact agrees_ofHeaderWithin hf _ (agrees_readFunctionHeaderWithin hroot hf (h ▸ by decide))
  · next h =>
    simp only [readWithin, h]
    exact (agrees_readJumpWithin hroot _ hf (h ▸ by decide)).map
  · next h =>
    simp only [readWithin, h]
    exact (agrees_readJumpWithin hroot _ hf (h ▸ by decide)).map
  · next h =>
    simp only [readWithin, h]
    exact (agrees_readJumpWithin hroot _ hf (h ▸ by decide)).map
  · next h =>
    have hvalues : Formed root (p.drop 1) :=
      hf.tail (.onward (isPlain_statementWord (h ▸ by decide)))
    simp only [readWithin, h]
    exact (Expr.agrees_readListWithin hroot (by decide) hvalues).map
  · have hother : readWithin root p = if p.hasOutside "=" || p.hasOutside ":=" then
        complete <$> root.readAssignmentWithin p
        else (complete <| .expression ·) <$> Expr.readWithin root p .value := by
      rw [readWithin]
      split <;> first | contradiction | rfl
    rw [hother]
    split
    · next h => exact (agrees_readAssignmentWithin hroot hf h).map
    · exact (Expr.agrees_readWithin hroot hf _).map

end Line

/-! ## Blocks -/

namespace Blocks

include hroot in
theorem agrees_beginWithin (hf : Formed root p) (b : Blocks) :
    Agrees (b.begin p) (b.beginWithin root p) := by
  have hline {p : Phrase} {l : Line} (hf : Formed root p) (h : Line.read p = .ok l) :
      Line.readWithin root p = .ok l := (Line.agrees_readWithin hroot hf).eq.symm.trans h
  fun_induction begin p b with
  | case1 p b e h =>
    have hread := Line.agrees_readWithin hroot hf
    rw [beginWithin, ← hread.eq, h]
    exact .error (hread.ordinary e h)
  | case2 p b s h =>
    rw [beginWithin, hline hf h]
    exact .ok _
  | case3 p b o h =>
    rw [beginWithin, hline hf h]
    exact .ok _
  | case4 p b o q h ih =>
    rw [beginWithin, hline hf h]
    dsimp only
    rw [if_pos (Line.size_body_lt h (.inl ⟨o, rfl⟩))]
    exact ih (formed_inlineBody? hf (Line.inlineBody?_eq h (.inl ⟨o, rfl⟩)))
  | case5 p b c h =>
    rw [beginWithin, hline hf h]
    exact .ok _
  | case6 p b c q h ih =>
    rw [beginWithin, hline hf h]
    dsimp only
    rw [if_pos (Line.size_body_lt h (.inr ⟨c, rfl⟩))]
    exact ih (formed_inlineBody? hf (Line.inlineBody?_eq h (.inr ⟨c, rfl⟩)))

include hroot in
theorem agrees_beginBranchWithin (hf : Formed root p) (branches : List Branch)
    (condition : Option Expr) (b : Blocks) :
    Agrees (beginBranch branches condition p b)
      (beginBranchWithin root branches condition p b) := by
  rw [beginBranch, beginBranchWithin, inlineBodyWithin_eq hf]
  cases hq : p.inlineBody? with
  | none => exact .ok _
  | some q => exact agrees_beginWithin hroot (formed_inlineBody? hf hq) _

theorem ordinary_close (kind : BlockKind) (s : Stmt) (p : Phrase) (b : Blocks) :
    Ordinary (close kind s p b) := by
  rw [close]
  split
  · exact .ok _
  · exact .refuse rfl

theorem textAt_of_startsWith {text : String} (h : p.startsWith text) : p.textAt 0 = text := by
  rw [startsWith, hasText, beq_iff_eq] at h
  rw [textAt, h]
  rfl

include hroot in
/-- **So is every line of a script**, whatever blocks are open. -/
theorem agrees_feedWithin (hf : Formed root p) (b : Blocks) :
    Agrees (feed p b) (feedWithin root p b) := by
  have hbegin := agrees_beginWithin hroot hf b
  rw [feed, feedWithin]
  rcases b.frames with _ | ⟨⟨o, body⟩ | o | ⟨branches, condition, isInline, body⟩, outer⟩
  · dsimp only
    split
    · exact .refuse rfl
    · exact hbegin
  · dsimp only
    split
    · exact ordinary_close _ _ _ _
    · exact hbegin
  · exact hbegin
  · have hmore : Agrees (if isTerminator p || (isInline && !body.isEmpty) then
          close .choice (closeChoice branches condition body) p { b with frames := outer }
          else b.begin p)
        (if isTerminator p || (isInline && !body.isEmpty) then
          close .choice (closeChoice branches condition body) p { b with frames := outer }
          else b.beginWithin root p) := by
      split
      · exact ordinary_close _ _ _ _
      · exact hbegin
    cases condition with
    | none => exact hmore
    | some c =>
      dsimp only
      split
      · next helif =>
        have hword : p.textAt 0 ∈ statementWords := textAt_of_startsWith helif ▸ by decide
        exact (agrees_readConditionWithin hroot hf hword).bind
          fun c _ => agrees_beginBranchWithin hroot hf _ _ _
      · split
        · exact (agrees_checkElseWithin root p).bind
            fun _ _ => agrees_beginBranchWithin hroot hf _ _ _
        · exact hmore

theorem ordinary_finish (line : Nat) (b : Blocks) : Ordinary (b.finish line) := by
  rw [finish]
  split
  · exact .ok _
  · exact .error rfl

end Blocks

/-! ## Scripts -/

/-- What is wrong with a text is no matter of brackets not found. -/
theorem Source.ordinary_scanFrom (open_ : Brackets) (begun : Bool) (src : Source) :
    ∀ e, (src.scanFrom open_ begun).error? = some e → e.isOrdinary := by
  induction open_, begun, src using induction_on_moves with
  | skip open_ begun src next hmove ih =>
    rw [scanFrom_eq, hmove]
    exact ih
  | form open_ begun src kind text open' next hmove ih =>
    rw [scanFrom_eq, hmove]
    exact ih
  | stop open_ begun src next flaw hmove =>
    rw [scanFrom_eq, hmove]
    intro e he
    obtain ⟨f, hf, rfl⟩ := Option.map_eq_some_iff.mp he
    cases moves_of_eq hmove <;> cases hf <;> rfl

theorem Source.agrees_scriptWithin (src : Source) (b : Blocks) :
    Agrees (src.scriptFrom b) (src.scriptWithin b) := by
  have hfeed {src : Source} (herror : src.scan.error? = none) (b : Blocks) :
      Agrees (b.feed (.whole src.scan.tokens))
        (b.feedWithin (.whole src.scan.tokens) (.whole src.scan.tokens)) :=
    Blocks.agrees_feedWithin (sound_scan (Option.map_eq_none_iff.mp herror)) .refl b
  fun_induction scriptFrom src b with
  | case1 src b e herror =>
    rw [scriptWithin, herror]
    exact .error (ordinary_scanFrom [] false src e herror)
  | case2 src b herror hnil =>
    rw [scriptWithin, herror]
    dsimp only
    rw [dif_pos hnil]
    exact Blocks.ordinary_finish _ _
  | case3 src b herror hne _ e h =>
    rw [scriptWithin, herror]
    dsimp only
    rw [dif_neg hne, ← (hfeed herror b).eq, h]
    exact .error ((hfeed herror b).ordinary e h)
  | case4 src b herror hne _ b' h ih =>
    rw [scriptWithin, herror]
    dsimp only
    rw [dif_neg hne, ← (hfeed herror b).eq, h]
    exact ih

/-- **No look-up fails while a script is read.**  An error of a script is an ordinary one, and a
script is read the same if every look-up is checked: every token that is looked up is there, every
bracket has its partner, and every phrase that is cut out of a statement is formed from it.  Every
phrase that is formed from a statement without a flaw is safe, and expressions and lines are read
from it without asking for any phrase that is not formed. -/
theorem Script.lookups_succeed :
    (∀ source, Script.read source = Script.readWithin source
        ∧ ∀ e, Script.read source = .error e → e.isOrdinary)
      ∧ ∀ src : Source, src.scan.flaw = none → ∀ p, Formed (whole src.scan.tokens) p →
          p.Safe src.scan.tokens
            ∧ (∀ lookup, Expr.read p lookup
                = Expr.readWithin (whole src.scan.tokens) p lookup)
            ∧ Line.read p = Line.readWithin (whole src.scan.tokens) p
            ∧ ∀ b : Blocks, b.feed p = b.feedWithin (whole src.scan.tokens) p := by
  refine ⟨fun source => ?_, fun src hflaw p hp => ?_⟩
  · have hscript := (Source.ofString source).agrees_scriptWithin .empty
    rw [Script.read_eq]
    exact ⟨hscript.eq, hscript.ordinary⟩
  · have hroot := sound_scan hflaw
    exact ⟨(hroot.formed hp).safe, fun lookup => (Expr.agrees_readWithin hroot hp lookup).eq,
      (Line.agrees_readWithin hroot hp).eq, fun b => (Blocks.agrees_feedWithin hroot hp b).eq⟩

/-- A loop beside whose header an assignment to an index stands, of a value that parentheses
enclose. -/
theorem Script.lookups_succeed_enclosed :
    let source := "while b:x[i]=(a)"
    let line := (Source.ofString source).scan.tokens
    let body := (whole line).drop 3
    let value := (body.drop 5).trim 1
    let s : Stmt := .assign (.name "x" .binding) [.name "i" .value] (.name "a" .value)
    (value.Safe line ∧ value.spelling = "a"
        ∧ Expr.readWithin (whole line) value .value = .ok (.name "a" .value))
      ∧ Line.readWithin (whole line) body = .ok (.complete s)
      ∧ Blocks.feedWithin (whole line) (whole line) .empty
        = .ok ⟨[], [.whileLoop (.name "b" .value) [s]]⟩
      ∧ Script.readWithin source = .ok [.whileLoop (.name "b" .value) [s]] := by
  intro source line body value s
  have hscan : (Source.ofString source).scan = ⟨[⟨.keyword, "while", 1⟩, ⟨.identifier, "b", 1⟩,
      ⟨.operator, ":", 1⟩, ⟨.identifier, "x", 1⟩, ⟨.operator, "[", 1⟩, ⟨.identifier, "i", 1⟩,
      ⟨.operator, "]", 1⟩, ⟨.operator, "=", 1⟩, ⟨.operator, "(", 1⟩, ⟨.identifier, "a", 1⟩,
      ⟨.operator, ")", 1⟩], ⟨[], 1⟩, none⟩ := by decide +kernel
  have hflaw : (Source.ofString source).scan.flaw = none := by rw [hscan]
  have hbody : Formed (whole line) body :=
    .tail .refl (.behind (k := 2) (by decide : ":" ∈ [":", "=", ":=", "in"]) (by decide +kernel))
  have hassigned : Formed (whole line) (body.drop 5) :=
    hbody.tail (.behind (k := 4) (by decide : "=" ∈ [":", "=", ":=", "in"]) (by decide +kernel))
  have hvalue : Formed (whole line) value := by
    refine hassigned.tail (.enclosed (b := .round) ?_)
    simp only [body, line, hscan]
    rfl
  obtain ⟨hsafe, hread, -⟩ := Script.lookups_succeed.2 _ hflaw value hvalue
  obtain ⟨-, -, hline, -⟩ := Script.lookups_succeed.2 _ hflaw body hbody
  obtain ⟨-, -, -, hfeed⟩ := Script.lookups_succeed.2 _ hflaw (whole line) .refl
  refine ⟨⟨hsafe, by decide +kernel, ?_⟩, ?_, ?_, ?_⟩
  · rw [← hread]
    simp only [value, body, line, hscan]
    with_unfolding_all rfl
  · rw [← hline]
    simp only [body, line, hscan]
    with_unfolding_all rfl
  · rw [← hfeed]
    simp only [line, hscan]
    with_unfolding_all rfl
  · rw [← (Script.lookups_succeed.1 source).1, Script.read_eq, Source.scriptFrom]
    simp only [hscan]
    with_unfolding_all rfl

end ScriptReader

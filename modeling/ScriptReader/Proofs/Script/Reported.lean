import ScriptReader.Proofs.Script.Statements
import ScriptReader.Proofs.Source.Lines

/-!
# Proofs/Script/Reported — every error points into the script

A script is refused in one of three places: at a flaw of its text, in a statement, or at its end
where a block is open (`Source.BreaksOff`).  The lines of a statement's error lie between that of
its first token and that which the scanner has got to, because the error is raised on lines of its
tokens only: a phrase is alike to itself under any relation that its tokens' lines satisfy
(`Blocks.feed_within`).  So every line that is reported is one of the source's
(`Script.error_points_into_source`).
-/

namespace ScriptReader

open Blocks

/-! ## Errors in a statement -/

/-- **What is wrong with a statement is said to be on lines that have a token of it.** -/
theorem Blocks.feed_within {lo hi : Nat} {ts : List Token}
    (hts : ∀ t ∈ ts, lo ≤ t.line ∧ t.line ≤ hi) (hne : ts ≠ []) {b : Blocks} {e : Error}
    (h : b.feed (.whole ts) = .error e) :
    ∃ problem line, e = .script problem line ∧ problem.category ≠ .lexical
      ∧ ∀ n ∈ line :: problem.lines, lo ≤ n ∧ n ≤ hi := by
  let Within (n _ : Nat) : Prop := lo ≤ n ∧ n ≤ hi
  have htokens : TokensAlike Within ts ts :=
    List.forall₂_same.mpr fun t ht => ⟨rfl, rfl, hts t ht⟩
  have hfeed : Parallel Within (Follows []) (b.feed (.whole ts)) (b.feed (.whole ts)) :=
    feed_alike (Phrase.alike_whole htokens hne) ⟨rfl, (List.append_nil _).symm⟩
  rw [h] at hfeed
  cases hfeed with
  | error hread hproblem hline =>
    exact ⟨_, _, rfl, hread, List.forall_mem_cons.mpr ⟨hline, List.forall₂_same.mp hproblem.lines⟩⟩

/-! ## Where a script is refused -/

/-- **Where the reading of a source breaks off**: with which problem, and on which line. -/
inductive Source.BreaksOff (start : Source) : Problem → Nat → Prop
  /-- At a flaw of the text, on the flaw's line. -/
  | atFlaw {statements : List (List Token)} {src : Source} {flaw : Flaw}
      (hrun : Run start statements src) (hflaw : src.scan.flaw = some flaw)
      (hcategory : flaw.problem.category = .lexical) : BreaksOff start flaw.problem flaw.line
  /-- In a statement; every line that is named lies between that of the statement's first token and
  that which the scanner has got to. -/
  | inStatement {statements : List (List Token)} {src : Source} {b : Blocks} {t : Token}
      {ts : List Token} {problem : Problem} {line : Nat} (hrun : Run start statements src)
      (hflaw : src.scan.flaw = none) (htokens : src.scan.tokens = t :: ts)
      (hfed : feedAll statements .empty = .ok b)
      (hfeed : b.feed (.whole (t :: ts)) = .error (.script problem line))
      (hcategory : problem.category ≠ .lexical)
      (hlines : ∀ n ∈ line :: problem.lines, t.line ≤ n ∧ n ≤ src.scan.source.line) :
      BreaksOff start problem line
  /-- At the end, where a block is open; the line is that which the scanner has got to. -/
  | atEnd {statements : List (List Token)} {src : Source} {b : Blocks} {f : Frame}
      {outer : List Frame} (hrun : Run start statements src) (hflaw : src.scan.flaw = none)
      (htokens : src.scan.tokens = []) (hfed : feedAll statements .empty = .ok b)
      (hframes : b.frames = f :: outer) :
      BreaksOff start (.endMissing f.kind) src.scan.source.line

/-- **Every line that is named is one of the source's.** -/
theorem Source.BreaksOff.line_le {source : String} {problem : Problem} {line : Nat}
    (h : BreaksOff (.ofString source) problem line) :
    ∀ n ∈ line :: problem.lines, 1 ≤ n ∧ n ≤ 1 + source.toList.count '\n' := by
  cases h with
  | atFlaw hrun hflaw _ =>
    obtain ⟨hline, -, hnone⟩ := hrun.flaw_line_le hflaw
    rw [hnone]
    exact List.forall_mem_singleton.mpr hline
  | inStatement hrun hflaw htokens _ _ _ hlines =>
    have hlo := hrun.line_le.1.trans (hrun.lines_of_scan hflaw htokens).1
    have hhi := (hrun.concat hflaw).line_le.2
    exact fun n hn => ⟨hlo.trans (hlines n hn).1, (hlines n hn).2.trans hhi⟩
  | atEnd hrun hflaw _ _ _ => exact List.forall_mem_singleton.mpr (hrun.concat hflaw).line_le

/-- What is refused among lines is one of them, with all lines before it read. -/
theorem Blocks.exists_of_feedAll_eq_error {lines : List (List Token)} {b : Blocks} {e : Error}
    (h : feedAll lines b = .error e) :
    ∃ as ts bs b', lines = as ++ ts :: bs ∧ feedAll as b = .ok b'
      ∧ b'.feed (.whole ts) = .error e := by
  induction lines generalizing b with
  | nil => cases h
  | cons ts lines ih =>
    rw [feedAll] at h
    cases hfeed : b.feed (.whole ts) with
    | error e' =>
      rw [hfeed] at h
      cases h
      exact ⟨[], ts, lines, b, rfl, rfl, hfeed⟩
    | ok b₁ =>
      rw [hfeed] at h
      obtain ⟨as, us, bs, b', rfl, has, hus⟩ := ih h
      refine ⟨ts :: as, us, bs, b', rfl, ?_, hus⟩
      rw [feedAll, hfeed]
      exact has

theorem Problem.category_mem (problem : Problem) :
    problem.category ∈ [.lexical, .missingToken, .unexpectedToken, .structural] := by
  unfold category
  split <;> decide

section BreaksOff

variable {source : String} {e : Error}

theorem Source.breaksOff_of_feedAll (h : feedAll (ofString source).statements .empty = .error e) :
    ∃ problem line, e = .script problem line ∧ BreaksOff (.ofString source) problem line := by
  obtain ⟨as, ts, bs, b, hlines, has, hts⟩ := exists_of_feedAll_eq_error h
  obtain ⟨src, hrun, hstatements, -⟩ := exists_run_of_eq_append hlines
  have hnext : src.HasNext := by
    by_contra hlast
    rw [statements_of_not_hasNext hlast] at hstatements
    cases hstatements
  rw [statements_of_hasNext hnext, List.cons.injEq] at hstatements
  obtain ⟨t, us, htokens⟩ := List.exists_cons_of_ne_nil hnext.2
  obtain rfl := hstatements.1.symm.trans htokens
  obtain ⟨hfirst, hlines⟩ := hrun.lines_of_scan hnext.1 htokens
  obtain ⟨problem, line, rfl, hcategory, hwithin⟩ := feed_within hlines (List.cons_ne_nil _ _) hts
  exact ⟨problem, line, rfl, .inStatement hrun hnext.1 htokens has hts hcategory hwithin⟩

theorem Source.breaksOff_of_conclude {b : Blocks}
    (hfed : feedAll (ofString source).statements .empty = .ok b)
    (h : (ofString source).lastScan.conclude b = .error e) :
    ∃ problem line, e = .script problem line ∧ BreaksOff (.ofString source) problem line := by
  obtain ⟨src, hrun, hsrc⟩ := (ofString source).exists_run
  cases hflaw : (ofString source).lastScan.flaw with
  | some flaw =>
    rw [Scan.conclude_of_flaw hflaw] at h
    cases h
    rw [← hsrc] at hflaw
    exact ⟨_, _, rfl, .atFlaw hrun hflaw (hrun.flaw_line_le hflaw).2.1⟩
  | none =>
    have htokens := Lexes.tokens_lastScan hflaw
    rw [Scan.conclude_of_lexes hflaw, finish] at h
    split at h
    · cases h
    · next f outer hframes =>
      cases h
      rw [← hsrc] at hflaw htokens ⊢
      exact ⟨_, _, rfl, .atEnd hrun hflaw htokens hfed hframes⟩

/-- **A script that is refused breaks off somewhere.** -/
theorem Script.breaksOff (h : Script.read source = .error e) :
    ∃ problem line, e = .script problem line
      ∧ Source.BreaksOff (.ofString source) problem line := by
  rw [Script.read_statements] at h
  cases hfed : feedAll (Source.ofString source).statements .empty with
  | error e' =>
    rw [hfed] at h
    cases h
    exact Source.breaksOff_of_feedAll hfed
  | ok b =>
    rw [hfed] at h
    exact Source.breaksOff_of_conclude hfed h

end BreaksOff

/-- **Every error points into the source.**  It is of one of four kinds and carries a line of the
source, as do the tokens that its wording names; raised in a statement, it does not go beyond the
lines from that of the statement's first token to that which the scanner has got to. -/
theorem Script.error_points_into_source {source : String} {e : Error}
    (h : Script.read source = .error e) :
    ∃ problem line, e = .script problem line
      ∧ e.category ∈ [.lexical, .missingToken, .unexpectedToken, .structural]
      ∧ (∀ n ∈ line :: problem.lines, 1 ≤ n ∧ n ≤ 1 + source.toList.count '\n')
      ∧ Source.BreaksOff (.ofString source) problem line := by
  obtain ⟨problem, line, rfl, hbreaks⟩ := Script.breaksOff h
  exact ⟨problem, line, rfl, problem.category_mem, hbreaks.line_le, hbreaks⟩

/-- A call over two lines with two operands that nothing joins, the second of them named as well. -/
theorem Script.error_points_into_source_adjacent :
    let problem := Problem.adjacentOperands (.token ⟨.number, "1", 3⟩) (.token ⟨.number, "2", 4⟩)
    Script.read "if a\nf(\n1\n2)\nend" = .error (.script problem 4)
      ∧ Source.BreaksOff (.ofString "if a\nf(\n1\n2)\nend") problem 4 := by
  intro problem
  have h : Script.read "if a\nf(\n1\n2)\nend" = .error (.script problem 4) := by
    rw [Script.read_eq]
    with_unfolding_all rfl
  obtain ⟨_, _, heq, -, -, hbreaks⟩ := Script.error_points_into_source h
  cases heq
  exact ⟨h, hbreaks⟩

end ScriptReader

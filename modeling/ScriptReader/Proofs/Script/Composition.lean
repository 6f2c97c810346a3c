import ScriptReader.Proofs.Script.Statements
import ScriptReader.Proofs.Source.Breaks
import ScriptReader.Proofs.Source.Lines
import ScriptReader.Proofs.Source.Lowered

/-!
# Proofs/Script/Composition — scripts on the lines of one source are read one after another

The statements of a source that has no flaw are followed by those of whatever comes behind a line
break (`Source.statements_followedBy`), and these are the same as on lines of their own but further
down (`Source.statements_lower`).  As a script that is read leaves no block open, what comes behind
it is read the same, and refused for the same reason: `Script.read_append`.
-/

namespace ScriptReader

open Blocks

namespace Source

variable {src : Source}

/-! ## Statements further down -/

theorem hasNext_lower (n : Nat) (src : Source) : (src.lower n).HasNext ↔ src.HasNext := by
  rw [HasNext, HasNext, scan_lower, Scan.lower, Option.map_eq_none_iff, Ne, List.map_eq_nil_iff]

/-- **Further down, there are the same statements.** -/
theorem statements_lower (n : Nat) (src : Source) :
    (src.lower n).statements = src.statements.map (List.map (Token.lower n))
      ∧ (src.lower n).lastScan = src.lastScan.lower n := by
  induction src using induction_on_statements with
  | next src h ih =>
    have hlower := (hasNext_lower n src).mpr h
    have hsource : (src.lower n).scan.source = src.scan.source.lower n := by
      rw [scan_lower]
      rfl
    rw [statements_of_hasNext h, statements_of_hasNext hlower, lastScan_of_hasNext h,
      lastScan_of_hasNext hlower, hsource, ih.1, ih.2, scan_lower]
    exact ⟨rfl, rfl⟩
  | last src h =>
    have hlower := mt (hasNext_lower n src).mp h
    rw [statements_of_not_hasNext h, statements_of_not_hasNext hlower, lastScan_of_not_hasNext h,
      lastScan_of_not_hasNext hlower, scan_lower]
    exact ⟨rfl, rfl⟩

/-! ## Statements behind a line break -/

/-- **The statements of a source go on with those behind a line break.** -/
theorem statements_followedBy (ds : List Char) (h : src.Lexes) :
    src.lastScan.source.rest = []
      ∧ (src.followedBy ds).statements
        = src.statements ++ (src.lastScan.source.followedBy ds).statements
      ∧ (src.followedBy ds).lastScan = (src.lastScan.source.followedBy ds).lastScan := by
  induction src using induction_on_statements with
  | next src hnext ih =>
    rw [Lexes, lastScan_of_hasNext hnext] at h
    obtain ⟨hrest, hstatements, hlast⟩ := ih h
    obtain ⟨next, hscan, hcongr⟩ := scanFrom_followedBy ds hnext.1 (.inr hnext.2)
    have hscan : (src.followedBy ds).scan = ⟨src.scan.tokens, next, none⟩ := hscan
    have hfollowed : (src.followedBy ds).HasNext := by
      rw [HasNext, hscan]
      exact ⟨rfl, hnext.2⟩
    obtain ⟨hnextstatements, hnextlast⟩ := statements_congr hcongr
    rw [statements_of_hasNext hfollowed, lastScan_of_hasNext hfollowed, hscan,
      statements_of_hasNext hnext, lastScan_of_hasNext hnext]
    refine ⟨hrest, ?_, hnextlast.trans hlast⟩
    rw [List.cons_append, ← hstatements]
    exact congrArg (src.scan.tokens :: ·) hnextstatements
  | last src hlast =>
    rw [Lexes, lastScan_of_not_hasNext hlast] at h
    have hnil : src.scan.tokens = [] := by_contra fun hne => hlast ⟨h, hne⟩
    obtain ⟨hrest, hscan⟩ := scanFrom_followedBy_of_nil ds h rfl hnil
    obtain ⟨hstatements, hlastscan⟩ := statements_congr hscan
    rw [statements_of_not_hasNext hlast, lastScan_of_not_hasNext hlast, List.nil_append]
    exact ⟨hrest, hstatements, hlastscan⟩

/-- A line break before a source moves it down. -/
theorem statements_newline (ds : List Char) (line : Nat) :
    (⟨'\n' :: ds, line⟩ : Source).statements = (⟨ds, line + 1⟩ : Source).statements
      ∧ (⟨'\n' :: ds, line⟩ : Source).lastScan = (⟨ds, line + 1⟩ : Source).lastScan :=
  statements_congr (scanFrom_cons_separator (by decide : isSeparator '\n' = true) ds line)

/-- The last scan of a source without a flaw has counted all lines. -/
theorem Lexes.line_lastScan {s : String} (h : (ofString s).Lexes) :
    (ofString s).lastScan.source.line = 1 + s.toList.count '\n' := by
  obtain ⟨src, hrun, hsrc⟩ := (ofString s).exists_run
  obtain ⟨before, htext, hline⟩ := (hrun.concat (by rw [hsrc]; exact h)).exists_read
  rw [hsrc] at htext hline
  rw [(statements_followedBy [] h).1, List.append_nil] at htext
  rw [hline, htext, lineBehind]

/-- **The statements of two texts with a line break between them** are those of the first, and those
of the second further down by the lines of the first. -/
theorem statements_append {s₁ s₂ : String} (h : (ofString s₁).Lexes) :
    (ofString (s₁ ++ "\n" ++ s₂)).statements
        = (ofString s₁).statements
          ++ (ofString s₂).statements.map (List.map (Token.lower (1 + s₁.toList.count '\n')))
      ∧ (ofString (s₁ ++ "\n" ++ s₂)).lastScan
        = (ofString s₂).lastScan.lower (1 + s₁.toList.count '\n') := by
  have hsource : ofString (s₁ ++ "\n" ++ s₂) = (ofString s₁).followedBy s₂.toList := by
    rw [ofString, ofList, String.toList_append, String.toList_append, List.append_assoc]
    rfl
  obtain ⟨hrest, hstatements, hlast⟩ := statements_followedBy s₂.toList h
  have hbehind : (ofString s₁).lastScan.source.followedBy s₂.toList
      = ⟨'\n' :: s₂.toList, 1 + s₁.toList.count '\n'⟩ := by
    rw [followedBy, hrest, h.line_lastScan]
    rfl
  have hlower : (⟨s₂.toList, 1 + s₁.toList.count '\n' + 1⟩ : Source)
      = (ofString s₂).lower (1 + s₁.toList.count '\n') := by
    rw [lower, Nat.add_comm]
    rfl
  obtain ⟨hnewline, hnewlinelast⟩ := statements_newline s₂.toList (1 + s₁.toList.count '\n')
  obtain ⟨hdown, hdownlast⟩ := statements_lower (1 + s₁.toList.count '\n') (ofString s₂)
  rw [hsource, hstatements, hlast, hbehind, hnewline, hnewlinelast, hlower, hdown, hdownlast]
  exact ⟨rfl, rfl⟩

end Source

/-! ## Reading -/

/-- A script that is read has left its statements outside all blocks. -/
theorem Script.feeds_of_read {source : String} {c : Script} (h : Script.read source = .ok c) :
    feedAll (Source.ofString source).statements .empty = .ok ⟨[], c.reverse⟩ := by
  cases hfed : feedAll (Source.ofString source).statements .empty with
  | error e =>
    rw [Script.read_statements, hfed] at h
    cases h
  | ok b =>
    rw [Script.read_of_feeds (Script.lexes_of_read h) hfed, finish] at h
    split at h
    · next hframes =>
      cases h
      rw [List.reverse_reverse, ← hframes]
    · cases h

/-- Tokens that are further down are alike. -/
theorem tokensAlike_lower (n : Nat) (ts : List Token) :
    TokensAlike (fun line line' => line' = line + n) ts (ts.map (Token.lower n)) :=
  List.forall₂_map_right_iff.mpr (List.forall₂_same.mpr fun _ _ => ⟨rfl, rfl, rfl⟩)

/-- What goes in parallel further down ends in the same values behind others, or in the same errors
further down. -/
theorem Parallel.behind {c₁ : Script} {n : Nat} {x y : Except Error Script}
    (h : Parallel (fun line line' => line' = line + n) (fun c c' => c' = c₁ ++ c) x y) :
    (∀ c₂, x = .ok c₂ → y = .ok (c₁ ++ c₂))
      ∧ ∀ e, x = .error e → ∃ problem problem' line, e = .script problem line
          ∧ y = .error (.script problem' (line + n)) ∧ problem'.category = problem.category
          ∧ problem'.context = problem.context := by
  cases h with
  | ok hc =>
    subst hc
    exact ⟨fun _ heq => by cases heq; rfl, nofun⟩
  | error _ hproblem hline =>
    subst hline
    refine ⟨nofun, fun _ heq => ?_⟩
    cases heq
    exact ⟨_, _, _, rfl, rfl, hproblem.category_eq.symm, hproblem.context_eq.symm⟩

/-- Behind a script that is read no block is open, and its statements are done. -/
theorem Script.read_behind {s₁ s₂ : String} {c₁ : Script} (h : Script.read s₁ = .ok c₁) :
    Script.read (s₁ ++ "\n" ++ s₂)
      = (feedAll ((Source.ofString s₂).statements.map
            (List.map (Token.lower (1 + s₁.toList.count '\n')))) ⟨[], c₁.reverse⟩).bind
          ((Source.ofString s₂).lastScan.lower (1 + s₁.toList.count '\n')).conclude := by
  obtain ⟨hstatements, hlast⟩ := @Source.statements_append s₁ s₂ (Script.lexes_of_read h)
  rw [Script.read_statements, hstatements, hlast, feedAll_append, Script.feeds_of_read h]
  rfl

/-- **A script behind another one comes to what it comes to alone**: its statements are put behind
the others, and an error is the same further down. -/
theorem Script.read_append {s₁ s₂ : String} {c₁ : Script} (h : Script.read s₁ = .ok c₁) :
    (∀ c₂, Script.read s₂ = .ok c₂ → Script.read (s₁ ++ "\n" ++ s₂) = .ok (c₁ ++ c₂))
      ∧ ∀ e, Script.read s₂ = .error e → ∃ problem problem' line, e = .script problem line
          ∧ Script.read (s₁ ++ "\n" ++ s₂)
            = .error (.script problem' (line + (1 + s₁.toList.count '\n')))
          ∧ problem'.category = problem.category ∧ problem'.context = problem.context := by
  have hbehind := @Script.read_behind s₁ s₂ c₁ h
  generalize 1 + s₁.toList.count '\n' = n at hbehind ⊢
  have hbase : Follows c₁.reverse .empty ⟨[], c₁.reverse⟩ := ⟨rfl, rfl⟩
  have hfeeds := feedAll_alike
    (List.forall₂_map_right_iff.mpr (List.forall₂_same.mpr fun ts _ => tokensAlike_lower n ts))
    (Source.ofString s₂).statement_ne_nil hbase
  rw [hbehind, Script.read_statements]
  cases hflaw : (Source.ofString s₂).lastScan.flaw with
  | none =>
    have hlower : ((Source.ofString s₂).lastScan.lower n).flaw = none :=
      congrArg (Option.map (Flaw.lower n)) hflaw
    refine Parallel.behind (hfeeds.bind fun b b' _ hb => ?_)
    rw [Scan.conclude_of_lexes hflaw, Scan.conclude_of_lexes hlower, ← c₁.reverse_reverse]
    exact finish_alike hb rfl
  | some flaw =>
    have hlower : ((Source.ofString s₂).lastScan.lower n).flaw = some (flaw.lower n) :=
      congrArg (Option.map (Flaw.lower n)) hflaw
    generalize feedAll (Source.ofString s₂).statements .empty = x at hfeeds ⊢
    generalize feedAll (List.map _ _) _ = y at hfeeds ⊢
    cases hfeeds with
    | error hread hproblem hline => exact Parallel.behind (.error hread hproblem hline)
    | ok =>
      simp only [Except.bind, Scan.conclude_of_flaw hflaw, Scan.conclude_of_flaw hlower]
      refine ⟨nofun, fun e he => ?_⟩
      cases he
      exact ⟨_, _, _, rfl, rfl, rfl, rfl⟩

/-- Behind a comment, which ends with its line, a name and an assignment without a value. -/
theorem Script.read_append_comment :
    let x := Stmt.expression (.name "x" .value)
    let y := Stmt.expression (.name "y" .value)
    Script.read "x # z" = .ok [x] ∧ Script.read ("x # z" ++ "\n" ++ "y") = .ok [x, y]
      ∧ ∃ problem, Script.read ("x # z" ++ "\n" ++ "y\nz =") = .error (.script problem 3)
        ∧ problem.category = .missingToken := by
  intro x y
  have hx : Script.read "x # z" = .ok [x] := by
    rw [Script.read_eq]
    with_unfolding_all rfl
  have hy : Script.read "y" = .ok [y] := by
    rw [Script.read_eq]
    with_unfolding_all rfl
  have hz : Script.read "y\nz =" = .error
      (.script (.assignedValueMissing (.token ⟨.operator, "=", 2⟩)) 2) := by
    rw [Script.read_eq]
    with_unfolding_all rfl
  obtain ⟨_, problem, _, heq, hread, hcategory, -⟩ := (Script.read_append hx).2 _ hz
  cases heq
  exact ⟨hx, (Script.read_append hx).1 _ hy, problem, hread, hcategory⟩

end ScriptReader

import Mathlib.Data.List.MinMax
import ScriptReader.CommandLine
import ScriptReader.Proofs.Script.Reported

/-!
# Proofs/Command/Agreement — the two commands agree on what is text and what is not

Listing goes through the statements of a source one by one (`Source.listing_eq`), while reading may
refuse one of them before the scanner has got to a flaw.  But a script that is read has none, and
an error about the text itself is that of the scan behind the last statement
(`Script.error?_lastScan_of_lexical`); so whatever a file contains, the two commands agree on
whether its text is broken, and on where (`Invocation.commands_agree`).
-/

namespace ScriptReader

open Blocks Source

/-! ## Listings -/

/-- The lines of a statement in a listing. -/
def listedStatement (ts : List Token) : String := String.join (ts.map Token.listed) ++ "EOS\n"

/-- **A listing is that of the statements**, with the error of the scan behind them. -/
theorem Source.listing_eq (src : Source) :
    src.listing = (String.join (src.statements.map listedStatement), src.lastScan.error?) := by
  induction src using induction_on_statements with
  | next src h ih =>
    rw [listing, statements_of_hasNext h, lastScan_of_hasNext h, Scan.error?, h.1]
    dsimp only [Option.map_none]
    rw [dif_neg h.2, ih, List.map_cons, String.join_cons]
    rfl
  | last src h =>
    rw [listing, statements_of_not_hasNext h, lastScan_of_not_hasNext h, Scan.error?]
    cases hflaw : src.scan.flaw with
    | some flaw => rfl
    | none =>
      have htokens : src.scan.tokens = [] := by_contra fun hne => h ⟨hflaw, hne⟩
      exact dif_pos htokens

/-! ## Errors about the text -/

/-- What is wrong with a statement is not about the text. -/
theorem Blocks.category_ne_of_feedAll {src : Source} {e : Error}
    (h : feedAll src.statements .empty = .error e) : e.category ≠ .lexical := by
  obtain ⟨as, ts, bs, b, hlines, -, hts⟩ := exists_of_feedAll_eq_error h
  have hne : ts ≠ [] := src.statement_ne_nil ts (by rw [hlines]; simp)
  obtain ⟨n, hn⟩ : ∃ n, ∀ t ∈ ts, t.line ≤ n :=
    ⟨(ts.map Token.line).foldr max 0,
      fun t ht => List.le_max_of_le' 0 (List.mem_map_of_mem ht) le_rfl⟩
  obtain ⟨problem, line, rfl, hcategory, -⟩ :=
    feed_within (fun t ht => ⟨Nat.zero_le _, hn t ht⟩) hne hts
  exact hcategory

/-- **An error about the text is that of the scan behind the last statement.** -/
theorem Script.error?_lastScan_of_lexical {source : String} {e : Error}
    (h : Script.read source = .error e) (hcategory : e.category = .lexical) :
    (ofString source).lastScan.error? = some e := by
  rw [Script.read_statements] at h
  cases hfed : feedAll (ofString source).statements .empty with
  | error e' =>
    rw [hfed] at h
    cases h
    exact absurd hcategory (category_ne_of_feedAll hfed)
  | ok b =>
    rw [hfed] at h
    have h : (ofString source).lastScan.conclude b = .error e := h
    rw [Scan.conclude] at h
    split at h
    · next he => rw [he, Except.error.inj h]
    · rw [finish] at h
      split at h
      · cases h
      · cases h
        cases hcategory

/-! ## Commands -/

/-- The script that the contents of a file are. -/
def Script.ofContents (contents : List UInt8) : Except Error Script :=
  match Text.decode contents with
  | .error fault => .error (.notText fault)
  | .ok source => Script.read (String.ofList source)

/-- **Parsing shows the script, or refuses it.** -/
theorem Command.outcome_parse (asDocument : Bool) (contents : List UInt8) :
    Command.parse.outcome asDocument contents =
      match Script.ofContents contents with
      | .error e => .refused "" e
      | .ok script =>
        ⟨0, if asDocument then script.document.pretty ++ "\n" else script.printed, "", false⟩ := by
  rw [Command.outcome, Script.ofContents]
  cases Text.decode contents with
  | error fault => rfl
  | ok source => rfl

/-- **What a listing shows of the contents of a file**: the statements that are scanned one after
another, up to the end, or to the first one that fails. -/
inductive Outcome.Lists (contents : List UInt8) (shown : Outcome) : Prop
  | notText {fault : Text.Utf8Fault} (hdecode : Text.decode contents = .error fault)
      (hexit : shown.exit = 65) (hstdout : shown.stdout = "")
      (hstderr : shown.stderr = (Error.notText fault).message ++ "\n") : Lists contents shown
  | flawed {source : List Char} {statements : List (List Token)} {src : Source} {flaw : Flaw}
      (hdecode : Text.decode contents = .ok source) (hrun : Run (.ofList source) statements src)
      (hne : ∀ ts ∈ statements, ts ≠ []) (hflaw : src.scan.flaw = some flaw)
      (hexit : shown.exit = 65)
      (hstdout : shown.stdout = String.join (statements.map listedStatement))
      (hstderr : shown.stderr = (Error.script flaw.problem flaw.line).message ++ "\n") :
      Lists contents shown
  | whole {source : List Char} {statements : List (List Token)} {src : Source}
      (hdecode : Text.decode contents = .ok source) (hrun : Run (.ofList source) statements src)
      (hne : ∀ ts ∈ statements, ts ≠ []) (hflaw : src.scan.flaw = none)
      (hend : src.scan.tokens = []) (hexit : shown.exit = 0)
      (hstdout : shown.stdout = String.join (statements.map listedStatement))
      (hstderr : shown.stderr = "") : Lists contents shown

theorem Command.lists_outcome (asDocument logs : Bool) (contents : List UInt8) :
    Outcome.Lists contents { Command.tokenize.outcome asDocument contents with logs := logs } := by
  rw [Command.outcome]
  cases hdecode : Text.decode contents with
  | error fault => exact .notText hdecode rfl rfl rfl
  | ok source =>
    obtain ⟨src, hrun, hsrc⟩ := (Source.ofList source).exists_run
    have hne := (Source.ofList source).statement_ne_nil
    dsimp only
    rw [listScript, listing_eq]
    cases hflaw : (Source.ofList source).lastScan.flaw with
    | some flaw =>
      rw [Scan.error?, hflaw]
      exact .flawed hdecode hrun hne (hsrc ▸ hflaw) rfl rfl rfl
    | none =>
      rw [Scan.error?, hflaw]
      exact .whole hdecode hrun hne (hsrc ▸ hflaw) (hsrc ▸ Lexes.tokens_lastScan hflaw) rfl rfl rfl

/-- What is parsed is listed to its end. -/
theorem Command.exit_of_script {asDocument : Bool} {contents : List UInt8} {script : Script}
    (h : Script.ofContents contents = .ok script) :
    (Command.tokenize.outcome asDocument contents).exit = 0 := by
  rw [Script.ofContents] at h
  cases hdecode : Text.decode contents with
  | error fault =>
    rw [hdecode] at h
    cases h
  | ok source =>
    rw [hdecode] at h
    have hflaw : (Source.ofList source).lastScan.flaw = none := by
      simpa only [Source.ofString, String.toList_ofList, Lexes] using Script.lexes_of_read h
    simp only [Command.outcome, hdecode, listScript, listing_eq, Scan.error?, hflaw]
    rfl

/-- An error about the text stops a listing too. -/
theorem Command.refused_of_error {asDocument : Bool} {contents : List UInt8} {e : Error}
    (h : Script.ofContents contents = .error e)
    (hcategory : e.category = .notText ∨ e.category = .lexical) :
    (Command.tokenize.outcome asDocument contents).exit = 65
      ∧ (Command.tokenize.outcome asDocument contents).stderr = e.message ++ "\n" := by
  rw [Script.ofContents] at h
  cases hdecode : Text.decode contents with
  | error fault =>
    rw [hdecode] at h
    cases h
    simp only [Command.outcome, hdecode]
    exact ⟨rfl, rfl⟩
  | ok source =>
    rw [hdecode] at h
    have hlexical : e.category = .lexical := hcategory.resolve_left fun hnotText => by
      obtain ⟨problem, line, rfl, -⟩ := Script.breaksOff h
      have hmem := problem.category_mem
      have hcategory : problem.category = .notText := hnotText
      rw [hcategory] at hmem
      simp at hmem
    have herror : (Source.ofList source).lastScan.error? = some e := by
      simpa only [Source.ofString, String.toList_ofList]
        using Script.error?_lastScan_of_lexical h hlexical
    simp only [Command.outcome, hdecode, listScript, listing_eq, herror]
    exact ⟨rfl, rfl⟩

/-- **The two commands agree on what is valid text**, whatever the file contains: a script that is
parsed is listed, what cannot be listed cannot be parsed, and an error about the text is the same
error for both.  What is listed is the statements before the first one that fails. -/
theorem Invocation.commands_agree {read : String → Except FileFault (List UInt8)} {name : String}
    {contents : List UInt8} (hread : read name = .ok contents) {o o' : Options}
    (ho : o.file? = some name) (ho' : o'.file? = some name) :
    let listed := (run .tokenize o).outcome read
    let parsed := (run .parse o').outcome read
    (parsed.exit = 0 → listed.exit = 0)
      ∧ (listed.exit = 65 → parsed.exit = 65 ∧ parsed.stdout = "")
      ∧ (∀ e, Script.ofContents contents = .error e →
        parsed.exit = 65 ∧ parsed.stderr = e.message ++ "\n"
          ∧ (e.category = .notText ∨ e.category = .lexical →
            listed.exit = 65 ∧ listed.stderr = parsed.stderr))
      ∧ listed.Lists contents := by
  intro listed parsed
  have hlisted : listed
      = { Command.tokenize.outcome o.asDocument contents with logs := o.log } := by
    simp only [listed, Invocation.outcome, ho, hread]
  have hparsed : parsed = { Command.parse.outcome o'.asDocument contents with logs := o'.log } := by
    simp only [parsed, Invocation.outcome, ho', hread]
  have hlists : listed.Lists contents := by
    rw [hlisted]
    exact Command.lists_outcome o.asDocument o.log contents
  rw [Command.outcome_parse] at hparsed
  cases hscript : Script.ofContents contents with
  | ok script =>
    rw [hscript] at hparsed
    have hexit : listed.exit = 0 := by rw [hlisted]; exact Command.exit_of_script hscript
    refine ⟨fun _ => hexit, fun h => ?_, fun e he => (nomatch he), hlists⟩
    rw [hexit] at h
    cases h
  | error e =>
    rw [hscript] at hparsed
    refine ⟨fun h => ?_, fun _ => ?_, fun e' he => ?_, hlists⟩
    · rw [hparsed] at h
      cases h
    · rw [hparsed]
      exact ⟨rfl, rfl⟩
    · cases he
      rw [hparsed]
      refine ⟨rfl, rfl, fun hcategory => ?_⟩
      rw [hlisted]
      exact Command.refused_of_error hscript hcategory

/-- Two operands that nothing joins, and a bracket that stays open on the next line: parsing stops
at the first, listing at the second. -/
theorem Invocation.commands_agree_adjacent :
    let contents : List UInt8 := [0x61, 0x20, 0x62, 0x0A, 0x28]
    let read : String → Except FileFault (List UInt8) := fun _ => .ok contents
    let listed := (run .tokenize ⟨some "s", false, false⟩).outcome read
    let parsed := (run .parse ⟨some "s", false, false⟩).outcome read
    listed.exit = 65 ∧ listed.stdout = "IDENTIFIER a 1\nIDENTIFIER b 1\nEOS\n"
      ∧ listed.Lists contents
      ∧ parsed.exit = 65 ∧ parsed.stdout = "" ∧ parsed.stderr ≠ listed.stderr := by
  intro contents read listed parsed
  have hexit : listed.exit = 65 := by with_unfolding_all rfl
  have hstdout : listed.stdout = "IDENTIFIER a 1\nIDENTIFIER b 1\nEOS\n" := by
    with_unfolding_all rfl
  have hscript : Script.ofContents contents = .error (.script (.adjacentOperands
      (.token ⟨.identifier, "a", 1⟩) (.token ⟨.identifier, "b", 1⟩)) 1) := by
    have hdecode : Text.decode contents = .ok "a b\n(".toList := by decide +kernel
    simp only [Script.ofContents, hdecode, Script.read_eq]
    with_unfolding_all rfl
  obtain ⟨-, hrefused, herror, hlists⟩ :=
    @Invocation.commands_agree read "s" contents rfl ⟨some "s", false, false⟩
      ⟨some "s", false, false⟩ rfl rfl
  obtain ⟨-, hparsed, -⟩ := herror _ hscript
  have hstderr : parsed.stderr ≠ listed.stderr := by
    rw [hparsed]
    decide +kernel
  exact ⟨hexit, hstdout, hlists, (hrefused hexit).1, (hrefused hexit).2, hstderr⟩

end ScriptReader

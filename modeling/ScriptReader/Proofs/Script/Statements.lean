import ScriptReader.Proofs.Script.Alike
import ScriptReader.Proofs.Script.RoundTrip
import ScriptReader.Proofs.Source.Account

/-!
# Proofs/Script/Statements — a script is its statements, one after another

A source falls into statements, up to its end or to a flaw (`Source.statements`); what stands there
is told by the last scan (`Source.lastScan`).  Reading a script is feeding its statements to no
blocks and concluding from the last scan (`Script.read_statements`), and what has been laid out as
statements is scanned as them (`Source.statements_laid`).
-/

namespace ScriptReader

open Blocks

namespace Source

/-! ## Statements -/

/-- The source goes on with a statement that has no flaw. -/
def HasNext (src : Source) : Prop := src.scan.flaw = none ∧ src.scan.tokens ≠ []

instance (src : Source) : Decidable src.HasNext :=
  inferInstanceAs (Decidable (src.scan.flaw = none ∧ src.scan.tokens ≠ []))

theorem HasNext.length_lt {src : Source} (h : src.HasNext) :
    src.scan.source.rest.length < src.rest.length := src.length_scanFrom_lt _ _ h.2

/-- The statements of a source, up to its end or to a flaw. -/
def statements (src : Source) : List (List Token) :=
  if h : src.HasNext then
    have := h.length_lt
    src.scan.tokens :: statements src.scan.source
  else []
termination_by src.rest.length

/-- The scan behind the last statement, which has no tokens or a flaw. -/
def lastScan (src : Source) : Scan :=
  if h : src.HasNext then
    have := h.length_lt
    lastScan src.scan.source
  else src.scan
termination_by src.rest.length

/-- The source is read to its end without a flaw. -/
def Lexes (src : Source) : Prop := src.lastScan.flaw = none

instance (src : Source) : Decidable src.Lexes :=
  inferInstanceAs (Decidable (src.lastScan.flaw = none))

variable {src src' : Source}

theorem statements_of_hasNext (h : src.HasNext) :
    src.statements = src.scan.tokens :: src.scan.source.statements := by
  rw [statements, dif_pos h]

theorem statements_of_not_hasNext (h : ¬src.HasNext) : src.statements = [] := by
  rw [statements, dif_neg h]

theorem lastScan_of_hasNext (h : src.HasNext) : src.lastScan = src.scan.source.lastScan := by
  rw [lastScan, dif_pos h]

theorem lastScan_of_not_hasNext (h : ¬src.HasNext) : src.lastScan = src.scan := by
  rw [lastScan, dif_neg h]

/-- **What a statement before it preserves, every source has.** -/
theorem induction_on_statements {motive : Source → Prop}
    (next : ∀ src : Source, src.HasNext → motive src.scan.source → motive src)
    (last : ∀ src : Source, ¬src.HasNext → motive src) (src : Source) : motive src := by
  induction hn : src.rest.length using Nat.strongRecOn generalizing src with
  | ind n ih =>
    subst hn
    by_cases h : src.HasNext
    · exact next src h (ih _ h.length_lt _ rfl)
    · exact last src h

/-- Sources that are scanned the same have the same statements. -/
theorem statements_congr (h : src.scan = src'.scan) :
    src.statements = src'.statements ∧ src.lastScan = src'.lastScan := by
  by_cases hnext : src.HasNext
  · have hnext' : src'.HasNext := by rwa [HasNext, ← h]
    rw [statements_of_hasNext hnext, statements_of_hasNext hnext', lastScan_of_hasNext hnext,
      lastScan_of_hasNext hnext', h]
    exact ⟨rfl, rfl⟩
  · have hnext' : ¬src'.HasNext := by rwa [HasNext, ← h]
    rw [statements_of_not_hasNext hnext, statements_of_not_hasNext hnext',
      lastScan_of_not_hasNext hnext, lastScan_of_not_hasNext hnext', h]
    exact ⟨rfl, rfl⟩

/-- **Statements are nested and not empty.** -/
theorem areLines_statements (src : Source) : AreLines src.statements := by
  induction src using induction_on_statements with
  | next src h ih =>
    rw [statements_of_hasNext h]
    exact .cons (nested_scan h.1) h.2 ih
  | last src h =>
    rw [statements_of_not_hasNext h]
    exact .nil

theorem statement_ne_nil (src : Source) : ∀ ts ∈ src.statements, ts ≠ [] :=
  fun ts hts => (src.areLines_statements ts hts).2

/-- A source without a flaw has no tokens behind its statements. -/
theorem Lexes.tokens_lastScan (h : src.Lexes) : src.lastScan.tokens = [] := by
  induction src using induction_on_statements with
  | next src hnext ih =>
    rw [Lexes, lastScan_of_hasNext hnext] at h
    rw [lastScan_of_hasNext hnext]
    exact ih h
  | last src hlast =>
    rw [Lexes, lastScan_of_not_hasNext hlast] at h
    rw [lastScan_of_not_hasNext hlast]
    by_contra hne
    exact hlast ⟨h, hne⟩

/-- The calls that read the statements have all succeeded, and the last scan is the next one. -/
theorem exists_run (src : Source) :
    ∃ next, Run src src.statements next ∧ next.scan = src.lastScan := by
  induction src using induction_on_statements with
  | next src h ih =>
    obtain ⟨next, hrun, hnext⟩ := ih
    rw [statements_of_hasNext h, lastScan_of_hasNext h]
    exact ⟨next, .cons h.1 hrun, hnext⟩
  | last src h =>
    rw [statements_of_not_hasNext h, lastScan_of_not_hasNext h]
    exact ⟨src, .nil src, rfl⟩

/-- The same holds where some of the statements have been read. -/
theorem exists_run_of_eq_append {as bs : List (List Token)} (h : src.statements = as ++ bs) :
    ∃ next, Run src as next ∧ next.statements = bs ∧ next.lastScan = src.lastScan := by
  induction as generalizing src with
  | nil => exact ⟨src, .nil src, h, rfl⟩
  | cons a as ih =>
    have hnext : src.HasNext := by
      by_contra hlast
      rw [statements_of_not_hasNext hlast] at h
      cases h
    rw [statements_of_hasNext hnext, List.cons_append, List.cons.injEq] at h
    obtain ⟨rfl, h⟩ := h
    obtain ⟨next, hrun, hstatements, hlast⟩ := ih h
    exact ⟨next, .cons hnext.1 hrun, hstatements, hlast.trans (lastScan_of_hasNext hnext).symm⟩

/-- **A text that lays out lines has these lines as its statements.** -/
theorem statements_laid {lines : List (List Token)}
    (hlines : ∀ ts ∈ lines, Closes [] ts ∧ ts ≠ [])
    (h : Laid 0 false src.line [] lines src.rest) : src.statements = lines ∧ src.Lexes := by
  induction lines generalizing src with
  | nil =>
    obtain ⟨next, hscan⟩ := scan_laid_nil h
    have hlast : ¬src.HasNext := fun hnext => hnext.2 (by rw [hscan])
    rw [statements_of_not_hasNext hlast, Lexes, lastScan_of_not_hasNext hlast, hscan]
    exact ⟨rfl, rfl⟩
  | cons ts lines ih =>
    obtain ⟨⟨hts, hne⟩, hlines⟩ := List.forall_mem_cons.mp hlines
    obtain ⟨next, hscan, hlaid⟩ := scanFrom_laid h (show ([] : Brackets).length = 0 from rfl) hts
    have hscan : src.scan = ⟨ts, next, none⟩ := hscan
    have hnext : src.HasNext := by
      rw [HasNext, hscan]
      exact ⟨rfl, hne⟩
    obtain ⟨hstatements, hlexes⟩ := ih hlines hlaid
    rw [statements_of_hasNext hnext, Lexes, lastScan_of_hasNext hnext, hscan, hstatements]
    exact ⟨rfl, hlexes⟩

end Source

/-! ## Reading -/

/-- What a script comes to behind its statements: at a flaw it is refused, and at the end of the
text no block may be open. -/
def Scan.conclude (last : Scan) (b : Blocks) : Except Error Script :=
  match last.error? with
  | some e => .error e
  | none => b.finish last.source.line

theorem Scan.conclude_of_flaw {last : Scan} {flaw : Flaw} (h : last.flaw = some flaw) (b : Blocks) :
    last.conclude b = .error (.script flaw.problem flaw.line) := by
  rw [conclude, error?, h]
  rfl

theorem Scan.conclude_of_lexes {last : Scan} (h : last.flaw = none) (b : Blocks) :
    last.conclude b = b.finish last.source.line := by
  rw [conclude, error?, h]
  rfl

/-- **Reading on is feeding the statements and concluding.** -/
theorem Source.scriptFrom_eq (src : Source) (b : Blocks) :
    src.scriptFrom b = (feedAll src.statements b).bind src.lastScan.conclude := by
  induction src using induction_on_statements generalizing b with
  | next src h ih =>
    rw [scriptFrom, statements_of_hasNext h, lastScan_of_hasNext h, Scan.error?, h.1, feedAll]
    dsimp only [Option.map_none]
    rw [dif_neg h.2]
    cases b.feed (.whole src.scan.tokens) with
    | error e => rfl
    | ok b => exact ih b
  | last src h =>
    rw [scriptFrom, statements_of_not_hasNext h, lastScan_of_not_hasNext h, feedAll]
    change _ = src.scan.conclude b
    cases hflaw : src.scan.flaw with
    | some flaw =>
      rw [Scan.conclude_of_flaw hflaw, Scan.error?, hflaw]
      rfl
    | none =>
      have htokens : src.scan.tokens = [] := by_contra fun hne => h ⟨hflaw, hne⟩
      rw [Scan.conclude_of_lexes hflaw, Scan.error?, hflaw]
      exact dif_pos htokens

/-- **So is reading a script.** -/
theorem Script.read_statements (source : String) :
    Script.read source = (feedAll (Source.ofString source).statements .empty).bind
      (Source.ofString source).lastScan.conclude := by
  rw [Script.read_eq, Source.scriptFrom_eq]

/-- Without a flaw, a script is what its statements leave behind. -/
theorem Script.read_of_feeds {source : String} {b : Blocks} (h : (Source.ofString source).Lexes)
    (hfed : feedAll (Source.ofString source).statements .empty = .ok b) :
    Script.read source = b.finish (Source.ofString source).lastScan.source.line := by
  rw [Script.read_statements, hfed]
  exact Scan.conclude_of_lexes h b

/-- A script that is read has no flaw. -/
theorem Script.lexes_of_read {source : String} {c : Script} (h : Script.read source = .ok c) :
    (Source.ofString source).Lexes := by
  rw [Script.read_statements] at h
  cases hfed : feedAll (Source.ofString source).statements .empty with
  | error e =>
    rw [hfed] at h
    cases h
  | ok b =>
    rw [hfed] at h
    cases hflaw : (Source.ofString source).lastScan.flaw with
    | none => exact hflaw
    | some flaw =>
      have hconclude : (Source.ofString source).lastScan.conclude b = .ok c := h
      rw [Scan.conclude_of_flaw hflaw] at hconclude
      cases hconclude

/-! ## What follows other statements -/

variable {R : Nat → Nat → Prop} {base : List Stmt}

theorem Blocks.finish_alike {b b' : Blocks} (hb : Follows base b b') {line line' : Nat}
    (hline : R line line') :
    Parallel R (fun c c' => c' = base.reverse ++ c) (b.finish line) (b'.finish line') := by
  rw [finish, finish, hb.frames_eq]
  split
  · refine .ok ?_
    rw [hb.done_eq, List.reverse_append]
  · exact .error (bne_iff_ne.mp rfl) ⟨rfl, rfl, .nil⟩ hline

end ScriptReader

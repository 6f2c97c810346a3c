import ScriptReader.Proofs.Phrase.Alike
import ScriptReader.Proofs.Source.Account

/-!
# Proofs/Source/Lines — the lines that the scanner has got to

What is read off a source lies on lines that do not go back (`Source.Reads.first_line_le`).  So the
tokens of a statement lie between the line of the first one and the scanner's (`Run.lines_of_scan`),
and the lines of the scanner and of a flaw are lines of the source (`Run.line_le`,
`Run.flaw_line_le`).
-/

namespace ScriptReader

open Stretch

/-! ## Lines of what is read off -/

namespace Source

namespace Reads

variable {src next : Source} {ss : List Stretch}

/-- Every token is on a line between the first and the last. -/
theorem line_of_mem (h : Reads src ss next) :
    ∀ t ∈ tokensOf ss, src.line ≤ t.line ∧ t.line ≤ next.line := by
  induction h with
  | nil => exact nofun
  | @token src next t rest ss _ _ hline h ih =>
    have hsrc : src.line ≤ (src.after t.text.toList rest).line := Nat.le_add_right _ _
    refine List.forall_mem_cons.mpr ⟨⟨hline.ge, ?_⟩, fun u hu => ?_⟩
    · rw [hline, h.line_eq]
      exact Nat.le_add_right_of_le hsrc
    · exact ⟨hsrc.trans (ih u hu).1, (ih u hu).2⟩
  | @trivia src next s rest ss _ hs h ih =>
    have hsrc : src.line ≤ (src.after s.text rest).line := Nat.le_add_right _ _
    have htokens : tokensOf (s :: ss) = tokensOf ss := by cases hs <;> rfl
    rw [htokens]
    exact fun u hu => ⟨hsrc.trans (ih u hu).1, (ih u hu).2⟩

/-- **No token is on an earlier line than the first one.** -/
theorem first_line_le (h : Reads src ss next) {t : Token} {ts : List Token}
    (ht : tokensOf ss = t :: ts) : ∀ u ∈ t :: ts, t.line ≤ u.line ∧ u.line ≤ next.line := by
  have hfirst : tokensOf ss = [] ++ t :: ts := ht
  obtain ⟨as, bs, rfl, -, rfl⟩ := exists_of_tokensOf_eq hfirst
  obtain ⟨mid, -, hmid⟩ := h.split
  have hline := hmid.of_token.2
  intro u hu
  rw [hline]
  exact hmid.line_of_mem u hu

end Reads

/-! ## Lines of a run -/

/-- A run has read some of the source, and goes on behind it. -/
theorem Run.exists_read {source : String} {statements : List (List Token)} {src : Source}
    (h : Run (.ofString source) statements src) :
    ∃ before, before ++ src.rest = source.toList ∧ src.line = lineBehind before := by
  have hfirst : (ofString source).line = lineBehind [] := rfl
  obtain ⟨sss, -, hreads, -⟩ := h.exists_reads hfirst
  exact ⟨textOf sss.flatten, hreads.rest_eq.symm, hreads.line_eq⟩

theorem Run.concat {start src : Source} {statements : List (List Token)}
    (h : Run start statements src) (hflaw : src.scan.flaw = none) :
    Run start (statements ++ [src.scan.tokens]) src.scan.source := by
  induction h with
  | nil src => exact .cons hflaw (.nil _)
  | cons hfirst _ ih => exact .cons hfirst (ih hflaw)

section Lines

variable {source : String} {statements : List (List Token)} {src : Source}
  (h : Run (.ofString source) statements src)
include h

/-- The scanner's line is one of the source's. -/
theorem Run.line_le : 1 ≤ src.line ∧ src.line ≤ 1 + source.toList.count '\n' := by
  obtain ⟨before, htext, hline⟩ := h.exists_read
  rw [hline, ← htext, List.count_append, lineBehind]
  omega

/-- The tokens of the next statement are on lines from that of its first token to that which the
scanner has got to. -/
theorem Run.lines_of_scan (hflaw : src.scan.flaw = none) {t : Token} {ts : List Token}
    (htokens : src.scan.tokens = t :: ts) :
    src.line ≤ t.line ∧ ∀ u ∈ t :: ts, t.line ≤ u.line ∧ u.line ≤ src.scan.source.line := by
  obtain ⟨before, -, hline⟩ := h.exists_read
  obtain ⟨ss, hss, hends⟩ := exists_ends_scan hline
  rw [hflaw] at hends
  rw [htokens] at hss
  exact ⟨(hends.1.line_of_mem t (hss ▸ List.mem_cons_self)).1, hends.1.first_line_le hss⟩

/-- A flaw of the text is on one of the source's lines, and names no other. -/
theorem Run.flaw_line_le {flaw : Flaw} (hflaw : src.scan.flaw = some flaw) :
    (1 ≤ flaw.line ∧ flaw.line ≤ 1 + source.toList.count '\n')
      ∧ flaw.problem.category = .lexical ∧ flaw.problem.lines = [] := by
  obtain ⟨before, htext, hline⟩ := h.exists_read
  obtain ⟨ss, -, hends⟩ := exists_ends_scan hline
  rw [hflaw] at hends
  obtain ⟨mid, cs, hreads, hconcerns, -, -⟩ := hends
  rw [← htext, hreads.rest_eq]
  cases hconcerns with
  | openBracket _ hss _ _ =>
    subst hss
    simp only [lineBehind, textOf_append, List.count_append]
    exact ⟨by omega, rfl, rfl⟩
  | _ =>
    simp only [lineBehind, List.count_append]
    exact ⟨by omega, rfl, rfl⟩

end Lines

end Source

end ScriptReader

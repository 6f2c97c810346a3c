import ScriptReader.Proofs.Source.Layout
import ScriptReader.Proofs.Source.Moves

/-!
# Proofs/Source/Balanced — the tokens of a statement leave open what the scanner says they do

`Leaves` describes the scanner's stack by the tokens read so far: each open bracket stands among
them, and what follows it up to the next open one is nested.  Every move preserves this
(`Leaves.pass`), so that a statement that is scanned without a flaw is nested
(`Source.nested_scan`).
-/

namespace ScriptReader

open ScriptReader.Bracket

/-! ## What tokens leave open -/

/-- **The tokens leave these brackets open**, the innermost first: behind the innermost one they are
nested, and those before it leave open the others. -/
def Leaves (ts : List Token) : Brackets → Prop
  | [] => Nested ts
  | (b, line) :: outer => ∃ before o inner, ts = before ++ o :: inner ∧ o.text = b.openerText
      ∧ o.line = line ∧ Nested inner ∧ Leaves before outer

namespace Leaves

variable {ts : List Token} {open_ : Brackets}

/-- Nested tokens leave open what was open before. -/
theorem append {more : List Token} (h : Leaves ts open_) (hmore : Nested more) :
    Leaves (ts ++ more) open_ := by
  cases open_ with
  | nil => exact Nested.append h hmore
  | cons b outer =>
    obtain ⟨before, o, inner, rfl, ho, hline, hinner, houter⟩ := h
    exact ⟨before, o, inner ++ more, by simp, ho, hline, hinner.append hmore, houter⟩

/-- An opening bracket is open behind itself. -/
theorem opener {b : Bracket} {t : Token} (h : Leaves ts open_) (ht : t.text = b.openerText) :
    Leaves (ts ++ [t]) ((b, t.line) :: open_) :=
  ⟨ts, t, [], rfl, ht, rfl, .nil, h⟩

/-- A closing bracket makes a group of what stands behind the innermost open one. -/
theorem closer {b : Bracket} {line : Nat} {t : Token} (h : Leaves ts ((b, line) :: open_))
    (ht : t.text = b.closerText) : Leaves (ts ++ [t]) open_ := by
  obtain ⟨before, o, inner, rfl, ho, -, hinner, houter⟩ := h
  have hgroup := (Nested.bracketed b ho ht hinner).nested
  have hsplit : before ++ o :: inner ++ [t] = before ++ (o :: (inner ++ [t])) := by simp
  exact hsplit ▸ houter.append hgroup

end Leaves

/-! ## Passing tokens -/

/-- A token opens a bracket, closes one, or is plain. -/
theorem Token.bracket_cases (t : Token) :
    t.IsPlain ∨ (∃ b : Bracket, t.text = b.openerText) ∨ ∃ b : Bracket, t.text = b.closerText := by
  cases ho : ofOpenerText? t.text with
  | some b => exact .inr (.inl ⟨b, eq_openerText_of_ofOpenerText? ho⟩)
  | none =>
    cases hc : ofCloserText? t.text with
    | some b => exact .inr (.inr ⟨b, eq_closerText_of_ofCloserText? hc⟩)
    | none => exact .inl ⟨ho, hc⟩

/-- A closing bracket passes just if it closes the innermost open one. -/
theorem Brackets.pass?_closerText (open_ : Brackets) (line : Nat) (b : Bracket) :
    open_.pass? line b.closerText.toList
      = match open_ with
        | [] => none
        | (o, _) :: outer => if o = b then some outer else none := by
  cases open_ <;> cases b <;> rfl

/-- **What is open behind a token is what the tokens leave open.** -/
theorem Leaves.pass {ts : List Token} {open_ open' : Brackets} {t : Token} (h : Leaves ts open_)
    (hpass : open_.pass? t.line t.text.toList = some open') : Leaves (ts ++ [t]) open' := by
  rcases t.bracket_cases with ht | ⟨b, ht⟩ | ⟨b, ht⟩
  · rw [Brackets.pass?_plain ht] at hpass
    cases hpass
    exact h.append (Group.token ht).nested
  · rw [Brackets.pass?_opener ht] at hpass
    cases hpass
    exact h.opener ht
  · rw [ht, Brackets.pass?_closerText] at hpass
    cases open_ with
    | nil => cases hpass
    | cons o outer =>
      obtain ⟨o, line⟩ := o
      dsimp only at hpass
      split at hpass
      · next heq =>
        cases hpass
        subst heq
        exact h.closer ht
      · cases hpass

/-! ## Scans -/

namespace Source

/-- Behind tokens that leave brackets open, a scan without a flaw closes them. -/
theorem nested_scanFrom (open_ : Brackets) (begun : Bool) (src : Source) {ts : List Token}
    (h : Leaves ts open_) (hflaw : (src.scanFrom open_ begun).flaw = none) :
    Nested (ts ++ (src.scanFrom open_ begun).tokens) := by
  induction open_, begun, src using induction_on_moves generalizing ts with
  | skip open_ begun src next hmove ih =>
    rw [scanFrom_eq, hmove] at hflaw ⊢
    exact ih h hflaw
  | form open_ begun src kind text open' next hmove ih =>
    rw [scanFrom_eq, hmove] at hflaw ⊢
    cases moves_of_eq hmove with
    | lexeme hpiece hpass =>
      have hpass' : open_.pass? src.line (String.ofList text).toList = some open' := by
        rwa [String.toList_ofList]
      have hnext := ih (Leaves.pass (t := ⟨kind, String.ofList text, src.line⟩) h hpass') hflaw
      rwa [List.append_assoc] at hnext
  | stop open_ begun src next flaw hmove =>
    rw [scanFrom_eq, hmove] at hflaw ⊢
    rw [List.append_nil]
    obtain rfl : flaw = none := hflaw
    cases moves_of_eq hmove with
    | finished hpiece hbegun hopen =>
      rw [hopen] at h
      exact h
    | ended hrest hopen =>
      rw [hopen] at h
      exact h

/-- **A statement that is scanned without a flaw is nested.** -/
theorem nested_scan {src : Source} (h : src.scan.flaw = none) : Nested src.scan.tokens :=
  nested_scanFrom [] false src Nested.nil h

end Source

end ScriptReader

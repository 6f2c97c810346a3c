import ScriptReader.Proofs.Script.Feeding
import ScriptReader.Proofs.Script.Sessions
import ScriptReader.Proofs.Source.Layout

/-!
# Proofs/Script/RoundTrip — what a source writes is what is read from it

A source writes a script if it lays out the lines of a writing of the script.  Scanning takes the
lines apart again (`scan_laid`), and each statement is put in place by its own lines
(`Stmt.Written.begins`), so the script is read back: `Script.IsWrittenAs.read`.
-/

namespace ScriptReader

open Blocks

/-! ## The lines of a script -/

/-- The lines are nested and not empty. -/
def AreLines (lines : List (List Token)) : Prop := ∀ ts ∈ lines, Nested ts ∧ ts ≠ []

theorem AreLines.nil : AreLines [] := nofun

theorem AreLines.cons {ts : List Token} {lines : List (List Token)} (hn : Nested ts)
    (hne : ts ≠ []) (h : AreLines lines) : AreLines (ts :: lines) :=
  List.forall_mem_cons.mpr ⟨⟨hn, hne⟩, h⟩

theorem AreLines.append {as bs : List (List Token)} (ha : AreLines as) (hb : AreLines bs) :
    AreLines (as ++ bs) := fun ts h => (List.mem_append.mp h).elim (ha ts) (hb ts)

theorem AreLines.flatMap {α : Type} {xs : List α} {f : α → List (List Token)}
    (h : ∀ x ∈ xs, AreLines (f x)) : AreLines (xs.flatMap f) := fun ts hts => by
  obtain ⟨x, hx, hmem⟩ := List.mem_flatMap.mp hts
  exact h x hx ts hmem

/-- A keyword alone on its line. -/
theorem AreLines.keyword {t : Token} {text : String} (ht : t.Spells text)
    (htext : text ∈ statementWords) : AreLines [[t]] :=
  .cons (Group.token (isPlain_of_statementWord ht htext)).nested (List.cons_ne_nil _ _) .nil

theorem Stmt.WrittenOnLine.nested {s : Stmt} {ts : List Token} (h : s.WrittenOnLine ts) :
    Nested ts := by
  cases h with
  | expression h => exact h.row.nested
  | print hk hitems hj =>
    refine .cons (isPlain_of_statementWord hk (by decide)) ?_
    exact hj.nested_of_isSegment (by decide) (List.forall_mem_map.mpr fun x hx =>
      (hitems x hx).row.isSegment (by decide))
  | @jump kind _ hk =>
    exact .cons (isPlain_of_statementWord hk (by cases kind <;> decide)) .nil
  | @jumpWith kind _ _ _ _ hk h =>
    exact .cons (isPlain_of_statementWord hk (by cases kind <;> decide)) h.row.nested
  | assign _ ht hb hx ho hv =>
    have hn := (hides_target ht hb hx "=" (by decide)).nested
    rw [← List.append_assoc]
    refine hn.append (.cons ?_ hv.row.nested)
    cases ho with
    | binding ht => exact ht.isPlain rfl rfl
    | rebinding ht => exact ht.isPlain rfl rfl

theorem nested_colon {colon? : Option Token} (hc : ∀ t ∈ colon?, t.Spells ":") :
    Nested colon?.toList := by
  cases colon? with
  | none => exact .nil
  | some colon => exact .cons ((hc colon rfl).isPlain rfl rfl) .nil

/-- The lines of a body, the first of which may go on behind a header. -/
theorem Suite.nested {s : Suite} (hc : ∀ t ∈ s.colon?, t.Spells ":")
    (hs : ∀ x ∈ s.statements, AreLines x.lines) : Nested s.tail ∧ AreLines s.lines := by
  cases s with
  | below colon? body => exact ⟨nested_colon hc, .flatMap hs⟩
  | beside colon x =>
    have hx := hs x (List.mem_singleton.mpr rfl)
    refine ⟨.cons ((hc colon rfl).isPlain rfl rfl) ?_, ?_⟩
    · exact (hx x.first List.mem_cons_self).1
    · exact fun ts hts => hx ts (List.mem_cons_of_mem _ hts)

theorem WrittenBranch.areLines {b : WrittenBranch} {text : String} (hk : b.keyword.Spells text)
    (htext : text ∈ statementWords) (h : Written 0 b.condition b.conditionTokens)
    (hc : ∀ t ∈ b.suite.colon?, t.Spells ":") (hs : ∀ x ∈ b.suite.statements, AreLines x.lines) :
    Nested b.first ∧ AreLines b.suite.lines := by
  obtain ⟨htail, hlines⟩ := b.suite.nested hc hs
  exact ⟨.cons (isPlain_of_statementWord hk htext) (h.row.nested.append htail), hlines⟩

/-- **The lines of a written statement are nested.** -/
theorem Stmt.Written.areLines {s : Stmt} {first : List Token} {below : List (List Token)}
    (h : s.Written first below) : AreLines (first :: below) := by
  induction h with
  | onLine h =>
    obtain ⟨t, rest, hts, -⟩ := h.head
    exact .cons h.nested (by rw [hts]; exact List.cons_ne_nil _ _) .nil
  | block ho hc _ hlast ih =>
    obtain ⟨t, rest, rfl, -⟩ := ho.head
    refine .cons (ho.hides.nested.append (nested_colon hc)) (List.cons_ne_nil _ _) ?_
    exact .append (.flatMap ih) (.keyword hlast (by decide))
  | inline ho hc _ ih =>
    obtain ⟨t, rest, rfl, -⟩ := ho.head
    have hfirst := (ih _ List.mem_cons_self).1
    refine .cons (ho.hides.nested.append (.cons (hc.isPlain rfl rfl) hfirst))
      (List.cons_ne_nil _ _) ?_
    exact fun ts hts => ih ts (List.mem_cons_of_mem _ hts)
  | @choice b branches otherwise last hif helif helse hconditions hcolons hcolon _ _ hlast
      ihbodies ihbody =>
    have hbs (x : WrittenBranch) (hx : x ∈ b :: branches) {text : String}
        (hk : x.keyword.Spells text) (htext : text ∈ statementWords) :=
      WrittenBranch.areLines hk htext (hconditions x hx) (hcolons x hx) (ihbodies x hx)
    obtain ⟨hfirst, hlines⟩ := hbs b List.mem_cons_self hif (by decide)
    refine .cons hfirst (List.cons_ne_nil _ _) ?_
    refine .append (.append (.append hlines (.flatMap fun x hx => ?_)) (.flatMap fun x hx => ?_))
      (.keyword hlast (by decide))
    · obtain ⟨hfirst, hlines⟩ := hbs x (List.mem_cons_of_mem _ hx) (helif x hx) (by decide)
      exact .cons hfirst (List.cons_ne_nil _ _) hlines
    · have hx : x ∈ otherwise := Option.mem_toList.mp hx
      obtain ⟨htail, hlines⟩ := x.suite.nested (hcolon x hx) (ihbody x hx)
      exact .cons (.cons (isPlain_of_statementWord (helse x hx) (by decide)) htail)
        (List.cons_ne_nil _ _) hlines

theorem Script.Written.areLines {c : Script} {lines : List (List Token)} (h : c.Written lines) :
    AreLines lines := by
  cases h with
  | intro h => exact .flatMap fun x hx => (h x hx).areLines

/-- **The lines of a written script are read as the script.** -/
theorem Script.Written.feeds {c : Script} {lines : List (List Token)} (h : c.Written lines) :
    feedAll lines .empty = .ok ⟨[], c.reverse⟩ := by
  cases h with
  | intro h =>
    have hbody := feedAll_body accumulates_nil (fun x hx => (h x hx).begins) []
    rw [List.append_nil] at hbody
    exact hbody

/-! ## Sources -/

/-- Reading a laid out source is reading its lines. -/
theorem readFrom_laid {lines : List (List Token)} (hlines : AreLines lines) {src : Source}
    {b b' : Blocks} (h : Laid 0 false src.line [] lines src.rest) (hb : feedAll lines b = .ok b')
    (store : Store) : ∃ line, (src.readFrom store b).1 = b'.finish line := by
  induction lines generalizing src store b with
  | nil =>
    obtain ⟨next, hscan⟩ := scan_laid_nil h
    cases hb
    rw [Source.readFrom_eq, hscan]
    exact ⟨next.line, rfl⟩
  | cons ts lines ih =>
    obtain ⟨hts, hne⟩ := hlines ts List.mem_cons_self
    obtain ⟨next, hscan, hnext⟩ := scan_laid h hts
    rw [feedAll] at hb
    cases hfeed : b.feed (.whole ts) with
    | error e => rw [hfeed] at hb; cases hb
    | ok b₁ =>
      rw [hfeed] at hb
      obtain ⟨line, hline⟩ := ih (fun us hus => hlines us (List.mem_cons_of_mem _ hus)) hnext hb
        (store.hold ⟨ts, next, none⟩)
      refine ⟨line, ?_⟩
      rw [Source.readFrom_eq, hscan, ← hline]
      simp only [Scan.error?, Option.map_none, if_neg hne, hfeed]

/-- **The source writes the script**: it lays out the lines of a writing of it. -/
def Script.IsWrittenAs (c : Script) (source : String) : Prop :=
  ∃ lines, c.Written lines ∧ Laid 0 false 1 [] lines source.toList

/-- **A source that writes a script is read as that script**, in a session that may have read others
before. -/
theorem Script.IsWrittenAs.read {c : Script} {source : String} (h : c.IsWrittenAs source)
    (s : Session) : (s.read source).1 = .ok c := by
  obtain ⟨lines, hc, hlaid⟩ := h
  have hlaid : Laid 0 false (Source.ofString source).line [] lines (Source.ofString source).rest :=
    hlaid
  obtain ⟨line, hread⟩ := readFrom_laid hc.areLines hlaid hc.feeds s.store
  rw [Session.read_fst_eq, hread, finish, List.reverse_reverse]

end ScriptReader

import ScriptReader.Proofs.Printed.Statement
import ScriptReader.Proofs.Script.Built
import ScriptReader.Proofs.Script.IndexGroups

/-!
# Proofs/Printed/Assignment — the operator that an assignment is printed with

A tree does not keep the operator of an assignment.  It is printed as the look-up of the target's
name says, and a target that names no place, like `a.(b.c)`, has none to be seen: it is printed as
assigned by `=` whatever is written (`Expr.assignmentSymbol_of_writesTarget`).  So the operator that
is written is the one that is printed, unless it is `:=` behind a target that does not end in a word
(`Script.assignment_printed`).
-/

namespace ScriptReader

/-! ## Statements within statements -/

/-- The bodies that the statement has. -/
def Stmt.bodies : Stmt → List (List Stmt)
  | .choice branches otherwise => branches.map Prod.snd ++ otherwise.toList
  | .whileLoop _ body => [body]
  | .forLoop _ _ body => [body]
  | .function _ _ body => [body]
  | _ => []

/-- **The statement stands in a script**, within so many bodies. -/
inductive Stmt.StandsIn (s : Stmt) : Nat → Script → Prop
  | here {script : Script} (h : s ∈ script) : StandsIn s 0 script
  | inside {depth : Nat} {script : Script} {t : Stmt} {body : List Stmt} (ht : t ∈ script)
      (hbody : body ∈ t.bodies) (h : StandsIn s depth body) : StandsIn s (depth + 1) script

theorem Stmt.StandsIn.exists_mem {s : Stmt} {depth : Nat} {script : Script}
    (h : s.StandsIn depth script) : ∃ t ∈ script, s.StandsIn depth [t] := by
  cases h with
  | here h => exact ⟨s, h, .here (List.mem_singleton_self s)⟩
  | @inside _ _ t _ ht hbody h => exact ⟨t, ht, .inside (List.mem_singleton_self t) hbody h⟩

/-! Whatever stands in a script is printed with it. -/

theorem printed_infix_printedBody {s : Stmt} {body : List Stmt} (h : s ∈ body) (depth : Nat) :
    (s.printed depth).toList <:+: (printedBody depth body).toList := by
  induction body with
  | nil => cases h
  | cons t body ih =>
    rw [printedBody, String.toList_append]
    rcases List.mem_cons.mp h with rfl | h
    · exact (List.prefix_append _ _).isInfix
    · exact (ih h).trans (List.suffix_append _ _).isInfix

theorem printedBody_infix_printedBranches {b : Branch} {branches : List Branch} (h : b ∈ branches)
    (depth : Nat) (keyword : String) :
    (printedBody (depth + 1) b.2).toList <:+: (printedBranches depth keyword branches).toList := by
  induction branches generalizing keyword with
  | nil => cases h
  | cons c branches ih =>
    rw [printedBranches, String.toList_append, String.toList_append]
    rcases List.mem_cons.mp h with rfl | h
    · exact List.infix_append _ _ _
    · exact (ih h "elif").trans (List.suffix_append _ _).isInfix

theorem printedBody_infix_printed {s : Stmt} {body : List Stmt} (h : body ∈ s.bodies)
    (depth : Nat) :
    (printedBody (depth + 1) body).toList <:+: (s.printed depth).toList := by
  cases s with
  | choice branches otherwise =>
    rw [Stmt.bodies, List.mem_append, List.mem_map, Option.mem_toList] at h
    rcases h with ⟨b, hb, rfl⟩ | h
    · have hbranch := printedBody_infix_printedBranches hb depth "if"
      cases otherwise with
      | none =>
        rw [Stmt.printed, String.toList_append]
        exact hbranch.trans (List.prefix_append _ _).isInfix
      | some body =>
        simp only [Stmt.printed, String.toList_append, List.append_assoc]
        exact hbranch.trans (List.prefix_append _ _).isInfix
    · cases h
      simp only [Stmt.printed, String.toList_append]
      exact List.infix_append _ _ _
  | whileLoop | forLoop | function =>
    obtain rfl := List.mem_singleton.mp h
    simp only [Stmt.printed, String.toList_append]
    exact List.infix_append _ _ _
  | expression | print | jump | assign => cases h

/-- **A statement of a script is printed with the script**, indented by the bodies around it. -/
theorem Stmt.StandsIn.printed_infix {s : Stmt} {inner : Nat} {script : Script}
    (h : s.StandsIn inner script) (depth : Nat) :
    (s.printed (depth + inner)).toList <:+: (printedBody depth script).toList := by
  induction h generalizing depth with
  | here h => exact printed_infix_printedBody h depth
  | @inside inner script t body ht hbody _ ih =>
    have hprinted := ih (depth + 1)
    rw [Nat.add_assoc, Nat.add_comm 1] at hprinted
    exact hprinted.trans
      ((printedBody_infix_printed hbody depth).trans (printed_infix_printedBody ht depth))

/-! ## Statements that lines make -/

theorem Phrase.exists_of_readJump {p : Phrase} {kind : Jump} :
    Yields (fun s => ∃ value, s = .jump kind value) (p.readJump kind) := by
  rw [readJump]
  split
  · exact .ok ⟨none, rfl⟩
  split
  · exact .refuse
  · exact Yields.trivial.map fun e _ => ⟨some e, rfl⟩

/-- **An assignment is read as its operator says.** -/
theorem Phrase.exists_of_readAssignment {p : Phrase} {s : Stmt} (h : p.readAssignment = .ok s) :
    ∃ pos lookup last target indices value, p.assignment? = some (pos, lookup)
      ∧ p.readIndices pos [] = .ok (last, indices)
      ∧ Expr.readTarget (p.take last) lookup = .ok target ∧ s = .assign target indices value := by
  rw [readAssignment] at h
  split at h
  · next pos lookup hassignment =>
    obtain ⟨-, last, indices, target, value, hindices, htarget, -, hs⟩ :=
      readAssignmentAt_eq_ok_iff.mp h
    exact ⟨pos, lookup, last, target, indices, value, hassignment, hindices, htarget, hs⟩
  · cases h

/-- A line that is a statement in itself. -/
theorem Line.cases_of_read_complete {p : Phrase} {s : Stmt} (h : Line.read p = .ok (.complete s)) :
    p.readAssignment = .ok s ∨ (∃ kind value, s = .jump kind value)
      ∨ (∃ arguments, s = .print arguments) ∨ ∃ e, s = .expression e := by
  have hjump {kind : Jump} (h : complete <$> p.readJump kind = .ok (.complete s)) :
      ∃ kind value, s = .jump kind value := by
    obtain ⟨s', hs', heq⟩ := Expr.exists_of_map_ok h
    cases heq
    exact ⟨kind, Phrase.exists_of_readJump s hs'⟩
  unfold Line.read at h
  split at h
  case h_5 | h_6 | h_7 => exact .inr (.inl (hjump h))
  case h_8 =>
    obtain ⟨arguments, -, heq⟩ := Expr.exists_of_map_ok h
    cases heq
    exact .inr (.inr (.inl ⟨arguments, rfl⟩))
  case h_9 =>
    split at h
    · obtain ⟨s', hs', heq⟩ := Expr.exists_of_map_ok h
      cases heq
      exact .inl hs'
    · obtain ⟨e, -, heq⟩ := Expr.exists_of_map_ok h
      cases heq
      exact .inr (.inr (.inr ⟨e, rfl⟩))
  all_goals
    obtain ⟨a, -, heq⟩ := Expr.exists_of_map_ok h
    cases heq

/-- Such a statement has no body. -/
theorem Line.bodies_eq_nil {p : Phrase} {s : Stmt} (h : Line.read p = .ok (.complete s)) :
    s.bodies = [] := by
  rcases cases_of_read_complete h with h | ⟨_, _, rfl⟩ | ⟨_, rfl⟩ | ⟨_, rfl⟩
  · obtain ⟨_, _, _, _, _, _, -, -, -, rfl⟩ := Phrase.exists_of_readAssignment h
    rfl
  all_goals rfl

section Lined

variable {Part : Phrase → Prop}

/-- Whatever stands in the statement and has no body of its own is what a line makes. -/
def Stmt.Lined (Part : Phrase → Prop) (s : Stmt) : Prop :=
  ∀ depth t, t.StandsIn depth [s] → t.bodies = [] →
    ∃ p, Part p ∧ Line.read p = .ok (.complete t)

theorem Stmt.lined_of_read {p : Phrase} {s : Stmt} (hp : Part p)
    (h : Line.read p = .ok (.complete s)) : s.Lined Part := by
  intro depth t ht _
  cases ht with
  | here ht =>
    obtain rfl := List.mem_singleton.mp ht
    exact ⟨p, hp, h⟩
  | inside ht hbody =>
    obtain rfl := List.mem_singleton.mp ht
    rw [Line.bodies_eq_nil h] at hbody
    cases hbody

theorem Stmt.lined_of_bodies {s : Stmt} (hne : s.bodies ≠ [])
    (h : ∀ body ∈ s.bodies, ∀ t ∈ body, t.Lined Part) : s.Lined Part := by
  intro depth t ht hbodies
  cases ht with
  | here ht =>
    obtain rfl := List.mem_singleton.mp ht
    exact absurd hbodies hne
  | inside ht hbody hstands =>
    obtain rfl := List.mem_singleton.mp ht
    obtain ⟨u, hu, hstands⟩ := hstands.exists_mem
    exact h _ hbody u hu _ t hstands hbodies

theorem built_lined (hpart : Phrase.AreParts Part) :
    Built Part (fun _ => True) (fun _ => True) (Stmt.Lined Part) where
  parts := hpart
  line {p} hp l h := by
    cases l with
    | complete s => exact .complete (Stmt.lined_of_read hp h)
    | opening o body => exact .opening trivial body
    | choice c body => exact .choice trivial body
  condition _ := .trivial
  close {o body} _ hbody := by
    have hbodies : (o.close body).bodies = [body] := by cases o <;> rfl
    refine Stmt.lined_of_bodies (by rw [hbodies]; exact List.cons_ne_nil _ _) ?_
    rw [hbodies]
    exact List.forall_mem_singleton.mpr hbody
  choice {b branches otherwise} hbranches hotherwise := by
    refine Stmt.lined_of_bodies (List.cons_ne_nil _ _) fun body hbody => ?_
    rw [Stmt.bodies, List.mem_append, List.mem_map, Option.mem_toList] at hbody
    rcases hbody with ⟨x, hx, rfl⟩ | hbody
    · exact (hbranches x hx).2
    · exact hotherwise body hbody

/-- **Every statement of a script that has no body is what a line makes**, at whatever depth. -/
theorem Script.exists_line {source : String} {script : Script} {depth : Nat} {s : Stmt}
    (h : Script.read source = .ok script) (hs : s.StandsIn depth script) (hbodies : s.bodies = []) :
    ∃ p, (Source.ofString source).HasPhrase p ∧ Line.read p = .ok (.complete s) := by
  have hlined := (built_lined (Source.areParts_hasPhrase (.ofString source))).read script h
  obtain ⟨t, ht, hs⟩ := hs.exists_mem
  exact hlined t ht depth s hs hbodies

end Lined

/-! ## Operators of assignments -/

/-- Which operator is written, the look-up tells. -/
theorem Phrase.textAt_of_assignment? {p : Phrase} {pos : Nat} {lookup : Lookup}
    (h : p.assignment? = some (pos, lookup)) :
    p.textAt pos = "=" ∧ lookup.localOnly = true
      ∨ p.textAt pos = ":=" ∧ lookup.localOnly = false := by
  have htext {text : String} (hpos : p.findOutside? text = some pos) : p.textAt pos = text := by
    obtain ⟨t, ht, hsplit⟩ := Expr.exists_of_findOutside? hpos
    have hget := getElem?_of_append hsplit
    rw [List.length_take_of_le (findOutside?_lt hpos).le] at hget
    rw [textAt, hget, Option.map_some, Option.getD_some, ht]
  rw [assignment?] at h
  split at h
  · next hpos =>
    cases h
    exact .inl ⟨htext hpos, rfl⟩
  · obtain ⟨pos', hpos, heq⟩ := Option.map_eq_some_iff.mp h
    cases heq
    exact .inr ⟨htext hpos, rfl⟩

/-- **A target is printed as assigned beyond the local scope** just if it names a place that is
looked up there. -/
theorem Expr.reachesOut_of_writesTarget {p : Phrase} {lookup : Lookup} {e : Expr}
    (h : p.WritesTarget lookup e) :
    e.reachesOut = true ↔ e.NamesPlace lookup ∧ lookup.localOnly = false := by
  cases h with
  | word =>
    rw [reachesOut, Bool.not_eq_true']
    exact ⟨fun h => ⟨.name _, h⟩, And.right⟩
  | @access left right l r _ _ hr =>
    cases r with
    | name identifier lookup' =>
      obtain ⟨-, -, -, rfl⟩ := isWord_of_read hr
      rw [reachesOut, Bool.not_eq_true']
      exact ⟨fun h => ⟨.member _ _, h⟩, And.right⟩
    | _ => exact ⟨nofun, fun h => nomatch h.1⟩

/-- What is printed for the operator of an assignment that a line makes. -/
theorem Phrase.assignmentSymbol_of_read {p : Phrase} (hp : p.IsScanned) {target value : Expr}
    {indices : List Expr} (h : Line.read p = .ok (.complete (.assign target indices value))) :
    ∃ pos lookup last, p.assignment? = some (pos, lookup)
      ∧ p.readIndices pos [] = .ok (last, indices)
      ∧ (p.textAt pos = "=" ∨ p.textAt pos = ":=")
      ∧ (target.assignmentSymbol = ":=" ↔ p.textAt pos = ":=" ∧ (p.take last).EndsInWord)
      ∧ (target.assignmentSymbol = "=" ↔ p.textAt pos = "=" ∨ ¬(p.take last).EndsInWord) := by
  rcases Line.cases_of_read_complete h with h | ⟨_, _, h⟩ | ⟨_, h⟩ | ⟨_, h⟩
  case inr.inl | inr.inr.inl | inr.inr.inr => cases h
  obtain ⟨pos, lookup, last, target, indices, value, hassignment, hindices, htarget, heq⟩ :=
    exists_of_readAssignment h
  cases heq
  obtain ⟨hread, htarget⟩ := Expr.readTarget_eq_ok_iff.mp htarget
  have hwrites := Expr.writesTarget_of_read hread htarget
  have htake : (p.take last).IsScanned := hp.slice _ _
  have hreaches : target.reachesOut = true
      ↔ (p.take last).EndsInWord ∧ lookup.localOnly = false := by
    rw [Expr.reachesOut_of_writesTarget hwrites, Expr.namesPlace_iff htake hwrites]
  refine ⟨pos, lookup, last, hassignment, hindices, ?_⟩
  have hne : "=" ≠ ":=" := by decide
  rw [Expr.assignmentSymbol]
  rcases textAt_of_assignment? hassignment with ⟨htext, hlocal⟩ | ⟨htext, hlocal⟩
  · have hinside : ¬target.reachesOut = true := fun hout => by
      rw [hlocal] at hreaches
      cases (hreaches.mp hout).2
    rw [if_neg hinside, htext]
    exact ⟨.inl rfl, iff_of_false hne fun h => hne h.1, iff_of_true rfl (.inl rfl)⟩
  · rw [hlocal] at hreaches
    rw [htext]
    split
    · next hout =>
      have hword := (hreaches.mp hout).1
      exact ⟨.inr rfl, iff_of_true rfl ⟨rfl, hword⟩,
        iff_of_false hne.symm fun h => h.elim hne.symm (absurd hword)⟩
    · next hout =>
      have hword : ¬(p.take last).EndsInWord := fun hword => hout (hreaches.mpr ⟨hword, rfl⟩)
      exact ⟨.inr rfl, iff_of_false hne fun h => hword h.2, iff_of_true rfl (.inr hword)⟩

/-- **The operator of an assignment is printed as it is written, unless it is `:=` behind a target
that does not end in a word.**  Every assignment of a script that is read, at whatever depth and
with whatever indices, is printed as a line of the script and is what a line of the source makes.
Whatever line makes it, it is printed with `:=` just if the line has `:=` and its target, without
the indices, ends in a word; otherwise it is printed with `=`. -/
theorem Script.assignment_printed {source : String} {script : Script} {depth : Nat}
    {target value : Expr} {indices : List Expr} (hread : Script.read source = .ok script)
    (h : (Stmt.assign target indices value).StandsIn depth script) :
    (indented depth ("(" ++ target.assignmentSymbol ++ " " ++ printedTarget target indices ++ " "
        ++ value.printed ++ ")")).toList <:+: script.printed.toList
      ∧ (∃ p, (Source.ofString source).HasPhrase p
        ∧ Line.read p = .ok (.complete (.assign target indices value)))
      ∧ ∀ p, (Source.ofString source).HasPhrase p →
        Line.read p = .ok (.complete (.assign target indices value)) →
        ∃ pos lookup last, p.assignment? = some (pos, lookup)
          ∧ p.readIndices pos [] = .ok (last, indices)
          ∧ (p.textAt pos = "=" ∨ p.textAt pos = ":=")
          ∧ (target.assignmentSymbol = ":=" ↔ p.textAt pos = ":=" ∧ (p.take last).EndsInWord)
          ∧ (target.assignmentSymbol = "=" ↔ p.textAt pos = "=" ∨ ¬(p.take last).EndsInWord) := by
  refine ⟨?_, exists_line hread h rfl, fun p hp hline => ?_⟩
  · have hprinted := h.printed_infix 0
    rwa [Nat.zero_add, Stmt.printed] at hprinted
  · exact p.assignmentSymbol_of_read
      ((Source.areParts_hasPhrase (.ofString source)).isScanned hp) hline

/-- An assignment in a loop, to an indexed member. -/
theorem Script.assignment_printed_indexed :
    ∃ script, Script.read "while c:\n  a.b[i] := y\nend" = .ok script
      ∧ (indented 1 "(:= (. a b)[i] y)").toList <:+: script.printed.toList := by
  let target : Expr := .binary .member (.name "a" .value) (.name "b" .rebinding)
  let s : Stmt := .assign target [.name "i" .value] (.name "y" .value)
  have hread : Script.read "while c:\n  a.b[i] := y\nend"
      = .ok [.whileLoop (.name "c" .value) [s]] := by
    rw [Script.read_eq]
    with_unfolding_all rfl
  have hstands : s.StandsIn 1 [.whileLoop (.name "c" .value) [s]] :=
    .inside (List.mem_singleton_self _) (List.mem_singleton_self _)
      (.here (List.mem_singleton_self _))
  have hline : "(" ++ target.assignmentSymbol ++ " " ++ printedTarget target [.name "i" .value]
      ++ " " ++ (Expr.name "y" .value).printed ++ ")" = "(:= (. a b)[i] y)" := by decide +kernel
  obtain ⟨hprinted, -⟩ := Script.assignment_printed hread hstands
  rw [hline] at hprinted
  exact ⟨_, hread, hprinted⟩

/-- What is assigned by `:=` to `a.(b.c)` is printed as assigned by `=`. -/
theorem Script.assignment_printed_otherwise :
    ((Phrase.whole (Source.ofString "a.(b.c) := d").scan.tokens).assignment?.map fun x =>
        (Phrase.whole (Source.ofString "a.(b.c) := d").scan.tokens).textAt x.1) = some ":="
      ∧ Script.read "a.(b.c) := d" = .ok [.assign (.binary .member (.name "a" .value)
          (.binary .member (.name "b" .value) (.name "c" .rebinding))) [] (.name "d" .value)]
      ∧ Script.printed [.assign (.binary .member (.name "a" .value)
          (.binary .member (.name "b" .value) (.name "c" .rebinding))) [] (.name "d" .value)]
        = "(= (. a (. b c)) d)\n" := by
  exact ⟨by decide +kernel, by rw [Script.read_eq]; with_unfolding_all rfl, by decide +kernel⟩

end ScriptReader

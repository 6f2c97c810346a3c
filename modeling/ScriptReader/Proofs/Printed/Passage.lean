import ScriptReader.Proofs.Printed.Heading

/-!
# Proofs/Printed/Passage — a printed script is known from its lines

A passage is a line, or a block of sections that ends in a line of its own; a section is a line with
a body of passages.  Bodies are indented deeper than what is around them, so that the depths of the
lines alone say where a body ends, and passages are known from their lines
(`Passage.IsWritten.eq_of_lines_append_eq`); the lines are known from their text
(`eq_of_lineText_eq`).
-/

namespace ScriptReader

/-! ## Lines -/

/-- A line, with how deep it is indented. -/
abbrev PlacedLine := Nat × Heading

/-- The text of a line, up to the line break. -/
def PlacedLine.text (l : PlacedLine) : List Char :=
  List.replicate (2 * l.1) ' ' ++ (l.2.text ++ ['\n'])

/-- A form does not begin with a blank. -/
theorem Form.IsWritten.head?_ne_blank {f : Form} (h : f.IsWritten) (r : List Char) :
    ∀ c ∈ (f.text ++ r).head?, (c == ' ') = false := by
  obtain ⟨c, rest, htext, hshape⟩ := h.shape_of_head
  rw [htext]
  intro d hd
  cases hd
  rw [beq_eq_false_iff_ne]
  rintro rfl
  cases h with
  | word hne hs =>
    have hplain := hs ' ' (by rw [← Form.text, htext]; exact List.mem_cons_self)
    exact absurd hplain (by decide)
  | quoted => cases hshape
  | group => cases hshape

/-- Nor does a line. -/
theorem Heading.IsWritten.head?_ne_blank {h : Heading} (hw : h.IsWritten) (r : List Char) :
    ∀ c ∈ (h.text ++ '\n' :: r).head?, (c == ' ') = false := by
  cases hw with
  | plain hf => exact hf.head?_ne_blank _
  | opener hkeyword =>
    have hall : ∀ k ∈ keywords, ∃ c rest, k.toList = c :: rest ∧ (c == ' ') = false := by
      intro k hk
      simp only [keywords, List.mem_cons, List.not_mem_nil, or_false] at hk
      rcases hk with rfl | rfl | rfl | rfl | rfl <;> exact ⟨_, _, rfl, rfl⟩
    obtain ⟨c, rest, hc, hne⟩ := hall _ hkeyword
    rw [text, hc]
    intro d hd
    cases hd
    exact hne
  | assignment =>
    intro c hc
    cases hc
    rfl
  | definition =>
    intro c hc
    cases hc
    rfl

/-- **Lines are known from their text**, with their depths. -/
theorem eq_of_lineText_eq {ls ls' : List PlacedLine} (h : ∀ l ∈ ls, l.2.IsWritten)
    (h' : ∀ l ∈ ls', l.2.IsWritten)
    (heq : ls.flatMap PlacedLine.text = ls'.flatMap PlacedLine.text) : ls = ls' := by
  have hline : ∀ l ∈ ls, ∀ l' ∈ ls', ∀ r r' : List Char, True → True →
      l.text ++ r = l'.text ++ r' → l = l' ∧ r = r' := by
    rintro ⟨d, x⟩ hl ⟨d', x'⟩ hl' r r' - - heq
    simp only [PlacedLine.text, List.append_assoc, List.singleton_append] at heq
    have hblank (n : Nat) : ∀ c ∈ List.replicate n ' ', (c == ' ') = true :=
      fun c hc => beq_iff_eq.mpr (List.eq_of_mem_replicate hc)
    obtain ⟨hdepth, hrest⟩ := eq_of_run_append_eq (hblank _) (hblank _)
      ((h _ hl).head?_ne_blank r) ((h' _ hl').head?_ne_blank r') heq
    have hlength := congrArg List.length hdepth
    rw [List.length_replicate, List.length_replicate] at hlength
    obtain ⟨rfl, hend⟩ := (h _ hl).eq_of_append_eq (h' _ hl') hrest
    obtain rfl : d = d' := by omega
    exact ⟨rfl, hend⟩
  have hne (l : PlacedLine) (r : List Char) : l.text ++ r ≠ [] := by simp [PlacedLine.text]
  have heq : ls.flatMap PlacedLine.text ++ [] = ls'.flatMap PlacedLine.text ++ [] := by rw [heq]
  exact (eq_of_flatMap_append_eq (fun _ => True) (· = []) hline (fun _ _ => trivial)
    (fun _ _ => trivial) (fun l _ => hne l) rfl rfl heq).1

/-! ## Passages -/

/-- A line, or a block of lines that open bodies, with the bodies. -/
inductive Passage where
  | line (h : Heading)
  | block (sections : List (Heading × List Passage))

namespace Passage

mutual

/-- The lines of a passage, its first one at the given depth. -/
def lines (depth : Nat) : Passage → List PlacedLine
  | line h => [(depth, h)]
  | block sections => linesOfSections depth sections ++ [(depth, .ending)]

def linesOfBody (depth : Nat) : List Passage → List PlacedLine
  | [] => []
  | p :: body => p.lines depth ++ linesOfBody depth body

def linesOfSections (depth : Nat) : List (Heading × List Passage) → List PlacedLine
  | [] => []
  | (h, body) :: sections =>
    (depth, h) :: (linesOfBody (depth + 1) body ++ linesOfSections depth sections)

end

theorem linesOfBody_eq_flatMap (depth : Nat) (body : List Passage) :
    linesOfBody depth body = body.flatMap (lines depth) := by
  induction body with
  | nil => rw [linesOfBody]; rfl
  | cons p body ih => rw [linesOfBody, ih]; rfl

/-- The lines of a section. -/
def linesOfSection (depth : Nat) (s : Heading × List Passage) : List PlacedLine :=
  (depth, s.1) :: s.2.flatMap (lines (depth + 1))

theorem lines_block (depth : Nat) (sections : List (Heading × List Passage)) :
    (block sections).lines depth
      = sections.flatMap (linesOfSection depth) ++ [(depth, .ending)] := by
  rw [lines]
  congr 1
  induction sections with
  | nil => rw [linesOfSections]; rfl
  | cons s sections ih =>
    obtain ⟨h, body⟩ := s
    rw [linesOfSections, ih, linesOfBody_eq_flatMap]
    rfl

/-- The lines of a passage are written as lines are, and those that open bodies have them. -/
inductive IsWritten : Passage → Prop
  | line {h : Heading} (hw : h.IsWritten) (hopens : h.opens = false) : IsWritten (line h)
  | block {sections : List (Heading × List Passage)} (hne : sections ≠ [])
      (hheadings : ∀ s ∈ sections, s.1.IsWritten) (hopens : ∀ s ∈ sections, s.1.opens)
      (hbodies : ∀ s ∈ sections, ∀ p ∈ s.2, IsWritten p) : IsWritten (block sections)

theorem IsWritten.isWritten_lines {p : Passage} (h : p.IsWritten) (depth : Nat) :
    ∀ l ∈ p.lines depth, l.2.IsWritten := by
  induction h generalizing depth with
  | line hw =>
    rw [lines]
    exact List.forall_mem_singleton.mpr hw
  | block _ hheadings _ _ ih =>
    rw [lines_block, List.forall_mem_append]
    refine ⟨fun l hl => ?_, List.forall_mem_singleton.mpr Heading.isWritten_ending⟩
    obtain ⟨s, hs, hl⟩ := List.mem_flatMap.mp hl
    rcases List.mem_cons.mp hl with rfl | hl
    · exact hheadings s hs
    · obtain ⟨p, hp, hl⟩ := List.mem_flatMap.mp hl
      exact ih s hs p hp (depth + 1) l hl

/-- The first line of a passage stands at its depth. -/
theorem head?_lines (p : Passage) (depth : Nat) (rest : List PlacedLine) :
    ∃ h, (p.lines depth ++ rest).head? = some (depth, h) := by
  cases p with
  | line h => exact ⟨h, by rw [lines]; rfl⟩
  | block sections =>
    rw [lines_block]
    cases sections with
    | nil => exact ⟨_, rfl⟩
    | cons s sections => exact ⟨s.1, rfl⟩

/-- The lines go on no deeper than a given depth. -/
def Leaves (depth : Nat) (rest : List PlacedLine) : Prop := ∀ l ∈ rest.head?, l.1 ≤ depth

theorem leaves_cons (depth : Nat) (h : Heading) (rest : List PlacedLine) :
    Leaves depth ((depth, h) :: rest) := by
  intro l hl
  cases hl
  exact Nat.le_refl depth

/-- **A body ends where the lines are indented less.** -/
theorem eq_of_body_append_eq {depth : Nat} {body body' : List Passage} {r r' : List PlacedLine}
    (hpassage : ∀ p ∈ body, ∀ p' ∈ body', ∀ r r',
      p.lines (depth + 1) ++ r = p'.lines (depth + 1) ++ r' → p = p' ∧ r = r')
    (hr : Leaves depth r) (hr' : Leaves depth r')
    (heq : body.flatMap (lines (depth + 1)) ++ r = body'.flatMap (lines (depth + 1)) ++ r') :
    body = body' ∧ r = r' := by
  have hdeeper (p : Passage) (r : List PlacedLine) : ¬ Leaves depth (p.lines (depth + 1) ++ r) := by
    intro hleaves
    obtain ⟨h, hhead⟩ := p.head?_lines (depth + 1) r
    exact absurd (hleaves _ hhead) (Nat.not_succ_le_self depth)
  exact eq_of_flatMap_append_eq (fun _ => True) (Leaves depth)
    (fun p hp p' hp' r r' _ _ => hpassage p hp p' hp' r r') (fun _ _ => trivial)
    (fun _ _ => trivial) (fun p _ => hdeeper p) hr hr' heq

/-- A block begins with a line that opens a body, and no passage of one line does. -/
theorem lines_line_ne_lines_block {x : Heading} {sections : List (Heading × List Passage)}
    (hx : x.opens = false) (hne : sections ≠ []) (hopens : ∀ s ∈ sections, s.1.opens)
    (depth : Nat) (r r' : List PlacedLine) :
    (line x).lines depth ++ r ≠ (block sections).lines depth ++ r' := by
  intro heq
  obtain ⟨s, sections, rfl⟩ := List.exists_cons_of_ne_nil hne
  rw [lines, lines_block, List.flatMap_cons] at heq
  have hhead : x = s.1 := congrArg Prod.snd (List.cons.inj heq).1
  rw [hhead, hopens s List.mem_cons_self] at hx
  cases hx

/-- **A passage is known from its lines**, and so is where it ends. -/
theorem IsWritten.eq_of_lines_append_eq {p p' : Passage} (h : p.IsWritten) (h' : p'.IsWritten)
    {depth : Nat} {r r' : List PlacedLine} (heq : p.lines depth ++ r = p'.lines depth ++ r') :
    p = p' ∧ r = r' := by
  induction h generalizing p' depth r r' with
  | @line x hw hx =>
    cases h' with
    | @line x' hw' hx' =>
      rw [lines, lines] at heq
      obtain ⟨hhead, hend⟩ := List.cons.inj heq
      cases hhead
      exact ⟨rfl, hend⟩
    | block hne _ hopens => exact absurd heq (lines_line_ne_lines_block hx hne hopens _ _ _)
  | @block sections hne hheadings hopens hbodies ih =>
    cases h' with
    | line _ hx' => exact absurd heq.symm (lines_line_ne_lines_block hx' hne hopens _ _ _)
    | @block sections' hne' hheadings' hopens' hbodies' =>
      rw [lines_block, lines_block, List.append_assoc, List.append_assoc, List.singleton_append,
        List.singleton_append] at heq
      have hsection : ∀ s ∈ sections, ∀ s' ∈ sections', ∀ r r', Leaves depth r → Leaves depth r' →
          linesOfSection depth s ++ r = linesOfSection depth s' ++ r' → s = s' ∧ r = r' := by
        rintro ⟨x, body⟩ hs ⟨x', body'⟩ hs' r r' hr hr' heq
        obtain ⟨hhead, hrest⟩ := List.cons.inj heq
        cases hhead
        obtain ⟨rfl, hend⟩ := eq_of_body_append_eq
          (fun p hp p' hp' r r' heq => ih _ hs p hp (hbodies' _ hs' p' hp') heq) hr hr' hrest
        exact ⟨rfl, hend⟩
      have hends (r : List PlacedLine) (hr : r.head? = some (depth, .ending)) :
          Leaves depth r := by
        intro l hl
        rw [hr] at hl
        cases hl
        exact Nat.le_refl depth
      have hnext (s : Heading × List Passage) (hs : s ∈ sections ∨ s ∈ sections')
          (r : List PlacedLine) :
          (linesOfSection depth s ++ r).head? ≠ some (depth, .ending) := by
        intro heq
        have hhead : s.1 = .ending := congrArg Prod.snd (Option.some.inj heq)
        have hopen := hs.elim (hopens s) (hopens' s)
        rw [hhead] at hopen
        cases hopen
      obtain ⟨rfl, hend⟩ := eq_of_flatMap_append_eq (Leaves depth)
        (·.head? = some (depth, .ending)) hsection (fun s r => leaves_cons depth s.1 _) hends
        hnext rfl rfl heq
      exact ⟨rfl, (List.cons.inj hend).2⟩

/-- **Passages are known from the text of their lines.** -/
theorem eq_of_text_eq {ps ps' : List Passage} (h : ∀ p ∈ ps, p.IsWritten)
    (h' : ∀ p ∈ ps', p.IsWritten)
    (heq : (ps.flatMap (lines 0)).flatMap PlacedLine.text
      = (ps'.flatMap (lines 0)).flatMap PlacedLine.text) : ps = ps' := by
  have hlines {ps : List Passage} (h : ∀ p ∈ ps, p.IsWritten) :
      ∀ l ∈ ps.flatMap (lines 0), l.2.IsWritten := by
    intro l hl
    obtain ⟨p, hp, hl⟩ := List.mem_flatMap.mp hl
    exact (h p hp).isWritten_lines 0 l hl
  have hne (p : Passage) (r : List PlacedLine) : p.lines 0 ++ r ≠ [] := by
    obtain ⟨x, hx⟩ := p.head?_lines 0 r
    intro hnil
    rw [hnil] at hx
    cases hx
  have heq : ps.flatMap (lines 0) ++ [] = ps'.flatMap (lines 0) ++ [] := by
    rw [eq_of_lineText_eq (hlines h) (hlines h') heq]
  exact (eq_of_flatMap_append_eq (fun _ => True) (· = [])
    (fun p hp p' hp' r r' _ _ => (h p hp).eq_of_lines_append_eq (h' p' hp'))
    (fun _ _ => trivial) (fun _ _ => trivial) (fun p _ => hne p) rfl rfl heq).1

end Passage

end ScriptReader

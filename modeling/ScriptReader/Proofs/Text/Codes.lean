import Mathlib.Data.List.TakeWhile

/-!
# Proofs/Text/Codes — where one part of a text ends and the next begins

Ways in which a text falls into parts in one way only: a run of characters of one kind up to one
that is not of it, a list of codes up to where none begins, codes that a reader takes off one at a
time, and codes with a separator between any two.
-/

namespace ScriptReader

/-- **A run of characters ends where one stands that is not of its kind.** -/
theorem eq_of_run_append_eq {β : Type} {p : β → Bool} {cs ds rest rest' : List β}
    (hcs : ∀ c ∈ cs, p c) (hds : ∀ d ∈ ds, p d) (hrest : ∀ c ∈ rest.head?, p c = false)
    (hrest' : ∀ c ∈ rest'.head?, p c = false) (h : cs ++ rest = ds ++ rest') :
    cs = ds ∧ rest = rest' := by
  have takes {cs rest : List β} (hcs : ∀ c ∈ cs, p c) (hrest : ∀ c ∈ rest.head?, p c = false) :
      (cs ++ rest).takeWhile p = cs := by
    rw [List.takeWhile_append_of_pos hcs]
    cases rest with
    | nil => rw [List.takeWhile_nil, List.append_nil]
    | cons c rest =>
      rw [List.takeWhile_cons_of_neg (by rw [hrest c rfl]; decide), List.append_nil]
  have heq : cs = ds := by rw [← takes hcs hrest, h, takes hds hrest']
  subst heq
  exact ⟨rfl, List.append_cancel_left h⟩

section Codes

variable {α β : Type} {code : α → List β} {as as' : List α} {rest rest' : List β}

/-- **A list of codes ends where none begins**, if the codes are told apart before all that may
follow one of them. -/
theorem eq_of_flatMap_append_eq (Rest Stop : List β → Prop)
    (hcode : ∀ a ∈ as, ∀ a' ∈ as', ∀ r r', Rest r → Rest r' →
      code a ++ r = code a' ++ r' → a = a' ∧ r = r')
    (hbegins : ∀ a r, Rest (code a ++ r)) (hstop : ∀ r, Stop r → Rest r)
    (hne : ∀ a, a ∈ as ∨ a ∈ as' → ∀ r, ¬ Stop (code a ++ r))
    (hrest : Stop rest) (hrest' : Stop rest')
    (h : as.flatMap code ++ rest = as'.flatMap code ++ rest') : as = as' ∧ rest = rest' := by
  have hfollows (bs : List α) {r : List β} (hr : Stop r) : Rest (bs.flatMap code ++ r) := by
    cases bs with
    | nil => exact hstop r hr
    | cons b bs =>
      rw [List.flatMap_cons, List.append_assoc]
      exact hbegins b _
  induction as generalizing as' with
  | nil =>
    cases as' with
    | nil => exact ⟨rfl, h⟩
    | cons a' as' =>
      rw [List.flatMap_nil, List.nil_append, List.flatMap_cons, List.append_assoc] at h
      exact absurd (h ▸ hrest) (hne a' (.inr List.mem_cons_self) _)
  | cons a as ih =>
    rw [List.flatMap_cons, List.append_assoc] at h
    cases as' with
    | nil =>
      rw [List.flatMap_nil, List.nil_append] at h
      exact absurd (h ▸ hrest') (hne a (.inl List.mem_cons_self) _)
    | cons a' as' =>
      rw [List.flatMap_cons, List.append_assoc] at h
      obtain ⟨rfl, htail⟩ := hcode a List.mem_cons_self a' List.mem_cons_self _ _
        (hfollows _ hrest) (hfollows _ hrest') h
      obtain ⟨rfl, hend⟩ := ih (fun b hb b' hb' => hcode b (List.mem_cons_of_mem _ hb) b'
        (List.mem_cons_of_mem _ hb')) (fun b hb => hne b
        (hb.imp (List.mem_cons_of_mem _) (List.mem_cons_of_mem _))) htail
      exact ⟨rfl, hend⟩

/-- Codes that a reader takes off a text are told apart. -/
theorem eq_of_reads {read : List β → Option (α × List β)}
    (hread : ∀ a r, read (code a ++ r) = some (a, r)) {a a' : α} {r r' : List β}
    (h : code a ++ r = code a' ++ r') : a = a' ∧ r = r' := by
  have heq := hread a r
  rw [h, hread a' r'] at heq
  cases heq
  exact ⟨rfl, rfl⟩

/-- What the codes of two lists' items determine about the items, the lists of codes do. -/
theorem map_eq_of_map_eq {α β γ : Type} {f : α → β} {g : α → γ} {as as' : List α}
    (hf : ∀ a ∈ as, ∀ a' ∈ as', f a = f a' → g a = g a') (h : as.map f = as'.map f) :
    as.map g = as'.map g := by
  induction as generalizing as' with
  | nil => rw [List.map_eq_nil_iff.mp h.symm]
  | cons a as ih =>
    cases as' with
    | nil => cases h
    | cons a' as' =>
      obtain ⟨ha, has⟩ := List.cons.inj h
      have hrest := ih (fun b hb b' hb' =>
        hf b (List.mem_cons_of_mem _ hb) b' (List.mem_cons_of_mem _ hb')) has
      rw [List.map_cons, List.map_cons, hf a List.mem_cons_self a' List.mem_cons_self ha, hrest]

/-! ## Rows -/

/-- Codes with a separator between any two. -/
def row (separator : List β) (code : α → List β) : List α → List β
  | [] => []
  | a :: as => code a ++ as.flatMap fun a => separator ++ code a

theorem row_eq_intercalate (separator : List β) (code : α → List β) (as : List α) :
    row separator code as = separator.intercalate (as.map code) := by
  cases as with
  | nil => rfl
  | cons a as =>
    induction as generalizing a with
    | nil => rw [row, List.flatMap_nil, List.append_nil, List.map_singleton,
        List.intercalate_singleton]
    | cons b as ih =>
      rw [List.map_cons, List.map_cons, List.intercalate_cons_cons, ← List.map_cons, ← ih, row,
        row, List.flatMap_cons, List.append_assoc, List.append_assoc]

/-- **A row ends where neither a code nor the separator begins.** -/
theorem eq_of_row_append_eq {separator : List β} (Rest Stop : List β → Prop)
    (hcode : ∀ a ∈ as, ∀ a' ∈ as', ∀ r r', Rest r → Rest r' →
      code a ++ r = code a' ++ r' → a = a' ∧ r = r')
    (hseparator : ∀ r, Rest (separator ++ r) ∧ ¬ Stop (separator ++ r))
    (hstop : ∀ r, Stop r → Rest r) (hne : ∀ a, a ∈ as ∨ a ∈ as' → ∀ r, ¬ Stop (code a ++ r))
    (hrest : Stop rest) (hrest' : Stop rest')
    (h : row separator code as ++ rest = row separator code as' ++ rest') :
    as = as' ∧ rest = rest' := by
  rcases as with _ | ⟨a, as⟩ <;> rcases as' with _ | ⟨a', as'⟩
  · exact ⟨rfl, h⟩
  · rw [row, row, List.nil_append, List.append_assoc] at h
    exact absurd (h ▸ hrest) (hne a' (.inr List.mem_cons_self) _)
  · rw [row, row, List.nil_append, List.append_assoc] at h
    exact absurd (h ▸ hrest') (hne a (.inl List.mem_cons_self) _)
  · -- With a separator before it, the first code is like the others.
    have hcodes (a : α) (as : List α) (r : List β) :
        separator ++ (row separator code (a :: as) ++ r)
          = (a :: as).flatMap (fun a => separator ++ code a) ++ r := by
      simp only [row, List.flatMap_cons, List.append_assoc]
    have h := congrArg (separator ++ ·) h
    simp only [hcodes] at h
    refine eq_of_flatMap_append_eq Rest Stop (fun a ha a' ha' r r' hr hr' heq => ?_)
      (fun a r => ?_) hstop (fun a _ r => ?_) hrest hrest' h
    · rw [List.append_assoc, List.append_assoc] at heq
      exact hcode a ha a' ha' r r' hr hr' (List.append_cancel_left heq)
    · rw [List.append_assoc]
      exact (hseparator _).1
    · rw [List.append_assoc]
      exact (hseparator _).2

end Codes

end ScriptReader

import Mathlib.Algebra.Group.Nat.Defs
import ScriptReader.Proofs.Store.Packed

/-!
# Proofs/Store/Relocated — how often a token moves while it is formed

A token that fills its pool moves on to the next one, which is empty; an empty pool that is too
small is enlarged where it is (`Store.Shifts`).  So a token leaves its pool once at most, and for it
there is one more pool at most (`Store.Underway.moves_le_one`).  From there on the pool at least
doubles whenever the token fills it, so that a token is relocated seldom for its length
(`Store.Underway.relocations_le`).  Both are said of every run in `Store.disciplined_run`.
-/

namespace ScriptReader

open ScriptReader.Text

namespace Store

variable {s s' : Store} {r : Record} {ts : List Token} {t : Token} {op : Op} {ops : List Op}

/-! ## Room in an empty pool -/

/-- **Looking for room ends at the current pool if it is empty**, or comes to be there. -/
theorem makeRoom_of_empty (n : Nat) (hempty : s.currentFilled = 0) :
    (s.makeRoom n).current = s.current
      ∧ (s.current < s.pools.size → (s.makeRoom n).poolCount = s.poolCount)
      ∧ (s.makeRoom n).poolCount ≤ s.poolCount + 1 := by
  rw [makeRoom]
  split
  · next hlt =>
    have hfilled : s.pools[s.current].filled = 0 := by
      rwa [currentFilled_eq (Array.getElem?_eq_getElem hlt)] at hempty
    split
    · exact ⟨rfl, fun _ => rfl, Nat.le_succ _⟩
    · have hcount : (s.pools.modify s.current (Pool.enlarge n)).size = s.pools.size :=
        Array.size_modify
      exact ⟨rfl, fun _ => hcount, Nat.le_trans (Nat.le_of_eq hcount) (Nat.le_succ _)⟩
  · next hlt => exact ⟨rfl, fun h => absurd h hlt, Nat.le_of_eq (Array.size_push _)⟩

/-- An empty pool that is too small is enlarged. -/
theorem currentSize_makeRoom {n : Nat} (hlt : s.current < s.pools.size)
    (hempty : s.currentFilled = 0) (hfull : s.currentSize ≤ n) :
    (s.makeRoom n).currentSize = Pool.sizeFor n := by
  have hp := Array.getElem?_eq_getElem hlt
  rw [currentFilled_eq hp] at hempty
  rw [currentSize_eq hp] at hfull
  have hfree : ¬n < s.pools[s.current].free := by
    rw [Pool.free]
    omega
  rw [makeRoom, dif_pos hlt, if_neg hfree, if_pos hempty, currentSize, Array.getElem?_modify,
    if_pos rfl, hp]
  rfl

/-- A full pool is left for the next one. -/
theorem makeRoom_of_full {n : Nat} (hlt : s.current < s.pools.size) (hfilled : s.currentFilled ≠ 0)
    (hfull : s.currentSize ≤ s.currentFilled + n) :
    s.makeRoom n = makeRoom n { s with current := s.current + 1 } := by
  have hp := Array.getElem?_eq_getElem hlt
  rw [currentFilled_eq hp] at hfilled hfull
  rw [currentSize_eq hp] at hfull
  have hfree : ¬n < s.pools[s.current].free := by
    rw [Pool.free]
    omega
  rw [makeRoom, dif_pos hlt, if_neg hfree, if_neg hfilled]

/-! ## What becomes of the pool -/

/-- How many bytes the token being formed has. -/
def formingSize (s : Store) : Nat := (s.forming.map Entry.size).getD 0

/-- **What becomes of the pool in which a token is formed.**  It stays as it is; or it is full, and
then an empty one is enlarged, so that it at least doubles, and another one is left for an empty
one. -/
inductive Shifts (s s' : Store) : Bool → Prop
  | stays (hcurrent : s'.current = s.current) (hcount : s'.poolCount = s.poolCount)
      (hfilled : s'.currentFilled = s.currentFilled) (hsize : s'.currentSize = s.currentSize) :
      Shifts s s' false
  | enlarges (hcurrent : s'.current = s.current) (hcount : s'.poolCount = s.poolCount)
      (hempty : s.currentFilled = 0) (hempty' : s'.currentFilled = 0)
      (hfull : s.currentSize ≤ s'.formingSize) (hsize : 2 * s'.formingSize ≤ s'.currentSize) :
      Shifts s s' true
  | moves (hcount : s'.poolCount ≤ s.poolCount + 1) (hfilled : s.currentFilled ≠ 0)
      (hempty : s'.currentFilled = 0) : Shifts s s' true

theorem Forms.shifts {relocated : Bool} (hforms : s.Forms s' relocated)
    (hlt : s.current < s.pools.size) (hlater : ∀ i, s.current < i → s.filledAt i = 0) :
    s.Shifts s' relocated := by
  cases hforms with
  | stays hlayout =>
    exact .stays hlayout.current hlayout.poolCount_eq hlayout.currentFilled_eq
      hlayout.currentSize_eq
  | @relocates e mid hbefore hafter hforming hlast hfull =>
    have hsize : s'.formingSize = e.size := by rw [formingSize, hforming]; rfl
    have hmid : mid.current < mid.pools.size := by
      rw [hbefore.current]
      exact Nat.lt_of_lt_of_eq hlt hbefore.poolCount_eq.symm
    have hfilled := hbefore.currentFilled_eq
    rw [← hfilled, ← hbefore.currentSize_eq] at hfull
    by_cases hempty : mid.currentFilled = 0
    · obtain ⟨hcurrent, hcount, -⟩ := makeRoom_of_empty e.size hempty
      rw [hempty, Nat.zero_add] at hfull
      refine .enlarges (hafter.current.trans (hcurrent.trans hbefore.current))
        (hafter.poolCount_eq.trans ((hcount hmid).trans hbefore.poolCount_eq))
        (hfilled ▸ hempty) ?_ ?_ ?_
      · rw [hafter.currentFilled_eq]
        change (mid.makeRoom e.size).filledAt (mid.makeRoom e.size).current = 0
        rw [filledAt_makeRoom, hcurrent]
        exact hempty
      · rwa [hsize, ← hbefore.currentSize_eq]
      · rw [hsize, hafter.currentSize_eq, currentSize_makeRoom hmid hempty hfull, Pool.sizeFor]
        exact Nat.le_max_right _ _
    · rw [makeRoom_of_full hmid hempty hfull] at hafter
      have hnext : currentFilled { mid with current := mid.current + 1 } = 0 := by
        change mid.filledAt (mid.current + 1) = 0
        rw [hbefore.filledAt_eq, hbefore.current]
        exact hlater _ (Nat.lt_succ_self _)
      obtain ⟨hcurrent, -, hcount⟩ := makeRoom_of_empty e.size hnext
      refine .moves ?_ (hfilled ▸ hempty) ?_
      · rw [hafter.poolCount_eq, ← hbefore.poolCount_eq]
        exact hcount
      · rw [hafter.currentFilled_eq]
        change filledAt (makeRoom e.size { mid with current := mid.current + 1 }).current
          (makeRoom e.size { mid with current := mid.current + 1 }) = 0
        rw [filledAt_makeRoom, hcurrent]
        exact hnext

/-! ## Tokens under way -/

/-- A token is being formed, in a store of packed pools. -/
structure Underway (s : Store) : Prop where
  represents : ∃ r, s.Represents r
  packed : s.Packed
  forming : s.forming.isSome

namespace Underway

theorem current_lt (h : s.Underway) : s.current < s.pools.size := by
  obtain ⟨r, hr⟩ := h.represents
  have hforming := h.forming
  rw [hr.forming, Option.isSome_map] at hforming
  exact hr.current_lt hforming

theorem shifts (h : s.Underway) (hop : op ≠ .finish ∧ op ≠ .clear) :
    s.Shifts (op.apply s) (op.relocates s) := by
  obtain ⟨r, hr⟩ := h.represents
  refine (forms_apply hr h.packed h.forming hop).shifts h.current_lt fun i hi => ?_
  cases hp : s.pools[i]? with
  | none =>
    rw [filledAt, hp]
    rfl
  | some p => rw [filledAt_eq hp, hr.lays.later i p hi hp]

theorem apply (h : s.Underway) (hop : op ≠ .finish ∧ op ≠ .clear) : (op.apply s).Underway := by
  obtain ⟨r, hr⟩ := h.represents
  refine ⟨⟨_, represents_apply op hr⟩, packed_apply op hr h.packed, ?_⟩
  have hforms := forms_apply hr h.packed h.forming hop
  generalize op.relocates s = relocated at hforms
  cases hforms with
  | stays _ hforming => rw [hforming]; rfl
  | relocates _ _ hforming => rw [hforming]; rfl

/-- A token is formed in the current pool. -/
theorem pool_eq (h : s.Underway) : s.forming.map Entry.pool = some s.current := by
  obtain ⟨⟨ts, - | t⟩, hr⟩ := h.represents
  · have hforming := h.forming
    rw [forming_eq_none hr] at hforming
    cases hforming
  · rw [forming_eq hr]
    rfl

end Underway

/-! ## Counting -/

theorem run_cons (op : Op) (ops : List Op) (s : Store) : run (op :: ops) s = run ops (op.apply s) :=
  rfl

/-- At how many of the operations something happens. -/
def times (happens : Op → Store → Bool) : List Op → Store → Nat
  | [], _ => 0
  | op :: ops, s => (if happens op s then 1 else 0) + times happens ops (op.apply s)

/-- Is the token being formed in another pool after the operation? -/
def Op.moves (op : Op) (s : Store) : Bool :=
  (op.apply s).forming.map Entry.pool != s.forming.map Entry.pool

/-- Nothing is moved as long as the current pool is the same. -/
theorem Underway.times_moves_cons (h : s.Underway) (hop : op ≠ .finish ∧ op ≠ .clear)
    (hcurrent : (op.apply s).current = s.current) (ops : List Op) :
    times Op.moves (op :: ops) s = times Op.moves ops (op.apply s) := by
  have hmoves : op.moves s = false := by
    rw [Op.moves, (h.apply hop).pool_eq, h.pool_eq, hcurrent]
    exact bne_self_eq_false _
  rw [times, hmoves, if_neg Bool.false_ne_true, Nat.zero_add]

/-- **At the beginning of its pool a token stays in it.** -/
theorem Underway.moves_of_empty (h : s.Underway) (hops : ∀ op ∈ ops, op ≠ .finish ∧ op ≠ .clear)
    (hempty : s.currentFilled = 0) :
    times Op.moves ops s = 0 ∧ (run ops s).poolCount = s.poolCount := by
  induction ops generalizing s with
  | nil => exact ⟨rfl, rfl⟩
  | cons op ops ih =>
    obtain ⟨hop, hops⟩ := List.forall_mem_cons.mp hops
    have hshifts := h.shifts hop
    generalize op.relocates s = relocated at hshifts
    have hstay (hcurrent : (op.apply s).current = s.current)
        (hcount : (op.apply s).poolCount = s.poolCount) (hempty' : (op.apply s).currentFilled = 0) :
        times Op.moves (op :: ops) s = 0 ∧ (run (op :: ops) s).poolCount = s.poolCount := by
      obtain ⟨hmoves, hpools⟩ := ih (h.apply hop) hops hempty'
      rw [h.times_moves_cons hop hcurrent]
      exact ⟨hmoves, hpools.trans hcount⟩
    cases hshifts with
    | stays hcurrent hcount hfilled => exact hstay hcurrent hcount (hfilled.trans hempty)
    | enlarges hcurrent hcount _ hempty' => exact hstay hcurrent hcount hempty'
    | moves _ hfilled => exact absurd hempty hfilled

/-- **A token leaves its pool once at most**, and there is one more pool for it at most. -/
theorem Underway.moves_le_one (h : s.Underway) (hops : ∀ op ∈ ops, op ≠ .finish ∧ op ≠ .clear) :
    times Op.moves ops s ≤ 1 ∧ (run ops s).poolCount ≤ s.poolCount + 1 := by
  induction ops generalizing s with
  | nil => exact ⟨Nat.zero_le 1, Nat.le_succ _⟩
  | cons op ops ih =>
    obtain ⟨hop, hops⟩ := List.forall_mem_cons.mp hops
    have hshifts := h.shifts hop
    generalize op.relocates s = relocated at hshifts
    have hstay (hcurrent : (op.apply s).current = s.current)
        (hcount : (op.apply s).poolCount = s.poolCount) :
        times Op.moves (op :: ops) s ≤ 1 ∧ (run (op :: ops) s).poolCount ≤ s.poolCount + 1 := by
      obtain ⟨hmoves, hpools⟩ := ih (h.apply hop) hops
      rw [h.times_moves_cons hop hcurrent]
      exact ⟨hmoves, hcount ▸ hpools⟩
    cases hshifts with
    | stays hcurrent hcount => exact hstay hcurrent hcount
    | enlarges hcurrent hcount => exact hstay hcurrent hcount
    | moves hcount _ hempty =>
      obtain ⟨hmoves, hpools⟩ := (h.apply hop).moves_of_empty hops hempty
      refine ⟨?_, Nat.le_trans (Nat.le_of_eq hpools) hcount⟩
      rw [times, hmoves]
      split <;> decide

/-! ## Doubling -/

theorem formingSize_eq (hs : s.Represents r) : s.formingSize = byteCount r.unsettled := by
  obtain ⟨ts, - | t⟩ := r
  · rw [formingSize, forming_eq_none hs]
    rfl
  · rw [formingSize, forming_eq hs, Option.map_some, Option.getD_some, size_formingEntry]
    rfl

/-- A token that does not begin anew does not become shorter. -/
theorem Underway.formingSize_le (h : s.Underway)
    (hop : op ≠ .finish ∧ op ≠ .clear ∧ ∀ line, op ≠ .start line) :
    s.formingSize ≤ (op.apply s).formingSize := by
  obtain ⟨⟨ts, forming⟩, hr⟩ := h.represents
  rw [formingSize_eq hr, formingSize_eq (represents_apply op hr)]
  cases forming with
  | none => exact Nat.zero_le _
  | some t =>
    cases op with
    | start line => exact absurd rfl (hop.2.2 line)
    | append c =>
      change byteCount t.text.toList ≤ byteCount (t.text.push c).toList
      rw [String.toList_push, byteCount_append]
      exact Nat.le_add_right _ _
    | classify kind => exact Nat.le_refl _
    | finish => exact absurd rfl hop.1
    | clear => exact absurd rfl hop.2.1

theorem Underway.formingSize_le_run (h : s.Underway)
    (hops : ∀ op ∈ ops, op ≠ .finish ∧ op ≠ .clear ∧ ∀ line, op ≠ .start line) :
    s.formingSize ≤ (run ops s).formingSize := by
  induction ops generalizing s with
  | nil => exact Nat.le_refl _
  | cons op ops ih =>
    obtain ⟨hop, hops⟩ := List.forall_mem_cons.mp hops
    exact Nat.le_trans (h.formingSize_le hop) (ih (h.apply ⟨hop.1, hop.2.1⟩) hops)

/-- **At the beginning of its pool, a token that is relocated once more is twice as long.** -/
theorem Underway.relocations_of_empty (h : s.Underway)
    (hops : ∀ op ∈ ops, op ≠ .finish ∧ op ≠ .clear ∧ ∀ line, op ≠ .start line)
    (hempty : s.currentFilled = 0) :
    times Op.relocates ops s = 0
      ∨ s.currentSize * 2 ^ (times Op.relocates ops s - 1) ≤ (run ops s).formingSize := by
  induction ops generalizing s with
  | nil => exact .inl rfl
  | cons op ops ih =>
    obtain ⟨hop, hops'⟩ := List.forall_mem_cons.mp hops
    have hnext := h.apply ⟨hop.1, hop.2.1⟩
    have hshifts := h.shifts ⟨hop.1, hop.2.1⟩
    rw [times, run_cons]
    generalize op.relocates s = relocated at hshifts ⊢
    cases hshifts with
    | stays _ _ hfilled hsize =>
      rw [if_neg Bool.false_ne_true, Nat.zero_add, ← hsize]
      exact ih hnext hops' (hfilled.trans hempty)
    | enlarges _ _ _ hempty' hfull hsize =>
      have hlast := hnext.formingSize_le_run hops'
      rw [if_pos rfl, Nat.add_sub_cancel_left]
      refine .inr ?_
      cases hcount : times Op.relocates ops (op.apply s) with
      | zero =>
        rw [Nat.pow_zero, Nat.mul_one]
        exact Nat.le_trans hfull hlast
      | succ count =>
        have hle := (ih hnext hops' hempty').resolve_left (by rw [hcount]; exact Nat.succ_ne_zero _)
        rw [hcount, Nat.add_sub_cancel] at hle
        calc s.currentSize * 2 ^ (count + 1)
            = 2 * s.currentSize * 2 ^ count := by
              rw [Nat.pow_succ', ← Nat.mul_assoc, Nat.mul_comm s.currentSize]
          _ ≤ (op.apply s).currentSize * 2 ^ count := Nat.mul_le_mul_right _ (by omega)
          _ ≤ (run ops (op.apply s)).formingSize := hle
    | moves _ hfilled => exact absurd hempty hfilled

/-- A pool is not smaller than usual. -/
theorem Underway.le_currentSize (h : s.Underway) : 1024 ≤ s.currentSize := by
  have hp := Array.getElem?_eq_getElem h.current_lt
  rw [currentSize_eq hp]
  exact (h.packed.stocked.roomy _ (Array.mem_of_getElem? hp)).least

/-- So it is long as soon as it is relocated there. -/
theorem Underway.le_formingSize_of_empty (h : s.Underway)
    (hops : ∀ op ∈ ops, op ≠ .finish ∧ op ≠ .clear ∧ ∀ line, op ≠ .start line)
    (hempty : s.currentFilled = 0) {k : Nat} (hk : k < times Op.relocates ops s) :
    1024 * 2 ^ k ≤ (run ops s).formingSize := by
  have hle := (h.relocations_of_empty hops hempty).resolve_left (Nat.ne_zero_of_lt hk)
  refine Nat.le_trans (Nat.mul_le_mul h.le_currentSize ?_) hle
  exact Nat.pow_le_pow_right (by decide) (Nat.le_sub_one_of_lt hk)

/-- **A token is relocated seldom for its length.** -/
theorem Underway.relocations_le (h : s.Underway)
    (hops : ∀ op ∈ ops, op ≠ .finish ∧ op ≠ .clear ∧ ∀ line, op ≠ .start line)
    (hmany : 1 < times Op.relocates ops s) :
    1024 * 2 ^ (times Op.relocates ops s - 2) ≤ (run ops s).formingSize := by
  induction ops generalizing s with
  | nil => cases hmany
  | cons op ops ih =>
    by_cases hempty : s.currentFilled = 0
    · exact h.le_formingSize_of_empty hops hempty (by omega)
    · obtain ⟨hop, hops'⟩ := List.forall_mem_cons.mp hops
      have hnext := h.apply ⟨hop.1, hop.2.1⟩
      have hshifts := h.shifts ⟨hop.1, hop.2.1⟩
      rw [times] at hmany
      rw [times, run_cons]
      generalize op.relocates s = relocated at hshifts hmany ⊢
      cases hshifts with
      | stays =>
        rw [if_neg Bool.false_ne_true, Nat.zero_add] at hmany ⊢
        exact ih hnext hops' hmany
      | enlarges _ _ hempty' => exact absurd hempty' hempty
      | moves _ _ hempty' =>
        -- the token is now at the beginning of its pool, and is relocated again
        rw [if_pos rfl] at hmany ⊢
        exact hnext.le_formingSize_of_empty hops' hempty' (by omega)

/-! ## Beginning a token -/

theorem underway_start (line : Nat) (hs : s.Represents r) (h : s.Packed) :
    (s.start line).Underway := by
  have hstart := represents_start line hs
  refine ⟨⟨_, hstart⟩, packed_apply (.start line) hs h, ?_⟩
  rw [hstart.forming]
  rfl

/-- A token is begun in a pool that is there, or in a new pool that is empty. -/
theorem poolCount_start (line : Nat) (hs : s.Represents ⟨ts, none⟩) (h : s.Packed) :
    (s.start line).poolCount = s.poolCount
      ∨ (s.start line).poolCount = s.poolCount + 1 ∧ (s.start line).currentFilled = 0 := by
  have hforming := forming_eq_none hs
  have hcount : (s.start line).poolCount = (s.makeRoom 0).poolCount := by rw [start, hforming]; rfl
  by_cases hlt : s.current < s.pools.size
  · have hp := Array.getElem?_eq_getElem hlt
    have hfilled := (h.stocked.roomy _ (Array.mem_of_getElem? hp)).filled_lt
    have hfree : 0 < s.pools[s.current].free := Nat.sub_pos_of_lt hfilled
    refine .inl ?_
    rw [hcount, makeRoom, dif_pos hlt, if_pos hfree]
  · have hroom : s.makeRoom 0 = { s with pools := s.pools.push (Pool.withRoom 0) } := by
      rw [makeRoom, dif_neg hlt]
    have hcurrent : (s.makeRoom 0).current = s.current := by rw [hroom]
    refine .inr ⟨?_, ?_⟩
    · rw [hcount, hroom]
      exact Array.size_push _
    · have hempty : (s.start line).currentFilled
          = (s.makeRoom 0).filledAt (s.makeRoom 0).current := by
        rw [start, hforming]
        rfl
      rw [hempty, filledAt_makeRoom, hcurrent, filledAt,
        Array.getElem?_eq_none (Nat.le_of_not_lt hlt)]
      rfl

/-- **Forming a token** in a store that has none under way. -/
theorem moves_of_start (line : Nat) (hs : s.Represents ⟨ts, none⟩) (h : s.Packed)
    (hops : ∀ op ∈ ops, op ≠ .finish ∧ op ≠ .clear) :
    times Op.moves ops (s.start line) ≤ 1
      ∧ (run ops (s.start line)).poolCount ≤ s.poolCount + 1 := by
  have hstart := underway_start line hs h
  obtain ⟨hmoves, hpools⟩ := hstart.moves_le_one hops
  refine ⟨hmoves, ?_⟩
  rcases poolCount_start line hs h with hcount | ⟨hcount, hempty⟩
  · rwa [hcount] at hpools
  · exact Nat.le_of_eq ((hstart.moves_of_empty hops hempty).2.trans hcount)

/-- **Pools are disciplined, and forming a token costs little.**  After any operations the pools
hold the texts of the tokens and nothing else, so that what is filled never exceeds a pool.  A token
that is formed from there on, begun anew or not, changes its pool once at most, and there is one
more pool at most.  If it is not begun anew and is relocated `r` times in all, more than once, it
has `1024 * 2 ^ (r - 2)` bytes at least. -/
theorem disciplined_run (ops : List Op) :
    (run ops empty).Disciplined
      ∧ (∀ p ∈ (run ops empty).pools, p.free + p.filled = p.size)
      ∧ ∀ (line : Nat) (more : List Op), (run ops empty).forming = none →
        (∀ op ∈ more, op ≠ .finish ∧ op ≠ .clear) →
        times Op.moves more ((run ops empty).start line) ≤ 1
          ∧ (run more ((run ops empty).start line)).poolCount ≤ (run ops empty).poolCount + 1
          ∧ ((∀ line', .start line' ∉ more) →
            ∀ e ∈ (run more ((run ops empty).start line)).forming,
              times Op.relocates more ((run ops empty).start line) ≤ 1
                ∨ 1024 * 2 ^ (times Op.relocates more ((run ops empty).start line) - 2)
                    ≤ e.size) := by
  have hs := represents_run ops represents_empty
  have h := packed_run ops represents_empty packed_empty
  refine ⟨disciplined_of_packed hs h, fun p hp => ?_, fun line more hforming hmore => ?_⟩
  · exact Nat.sub_add_cancel (Nat.le_of_lt (h.stocked.roomy p hp).filled_lt)
  generalize run ops empty = s at hs h hforming ⊢
  generalize record ops .empty = r at hs
  obtain ⟨ts, - | t⟩ := r
  · obtain ⟨hmoves, hpools⟩ := moves_of_start line hs h hmore
    refine ⟨hmoves, hpools, fun hfresh e he => ?_⟩
    have hadds : ∀ op ∈ more, op ≠ .finish ∧ op ≠ .clear ∧ ∀ line, op ≠ .start line :=
      fun op hop => ⟨(hmore op hop).1, (hmore op hop).2, fun line' heq => hfresh line' (heq ▸ hop)⟩
    have hsize : (run more (s.start line)).formingSize = e.size := by
      rw [formingSize, show (run more (s.start line)).forming = some e from he]
      rfl
    refine (Nat.lt_or_ge 1 _).elim (fun hmany => .inr ?_) .inl
    rw [← hsize]
    exact (underway_start line hs h).relocations_le hadds hmany
  · rw [forming_eq hs] at hforming
    cases hforming

/-- A second token, long enough to leave the pool of the first one and to outgrow the next pool
twice; then it is begun anew. -/
theorem disciplined_run_second_token :
    ∃ s more, s = run [.start 1, .append 'a', .finish] empty
      ∧ more = List.replicate 1100 (.append '😀') ∧ s.forming = none ∧ s.Disciplined
      ∧ times Op.relocates more (s.start 2) = 3 ∧ times Op.moves more (s.start 2) = 1
      ∧ times Op.moves (more ++ [.start 3, .append 'c']) (s.start 2) ≤ 1
      ∧ (run (more ++ [.start 3, .append 'c']) (s.start 2)).poolCount ≤ s.poolCount + 1
      ∧ ∀ e ∈ (run more (s.start 2)).forming, 1024 * 2 ^ (3 - 2) ≤ e.size := by
  let s := run [.start 1, .append 'a', .finish] empty
  let more : List Op := List.replicate 1100 (.append '😀')
  have hforming : s.forming = none := by decide +kernel
  have hmore : ∀ op ∈ more, op = .append '😀' := fun op => List.eq_of_mem_replicate
  have hanew : ∀ op ∈ more ++ [.start 3, .append 'c'], op ≠ .finish ∧ op ≠ .clear := by
    intro op hop
    rcases List.mem_append.mp hop with hop | hop
    · rw [hmore op hop]
      decide
    · exact (by decide : ∀ op ∈ [Op.start 3, .append 'c'], op ≠ .finish ∧ op ≠ .clear) op hop
  have hrelocates : times Op.relocates more (s.start 2) = 3 := by decide +kernel
  have honce : times Op.moves more (s.start 2) = 1 := by decide +kernel
  obtain ⟨hdisciplined, -, htoken⟩ := disciplined_run [.start 1, .append 'a', .finish]
  obtain ⟨hmoves, hpools, -⟩ := htoken 2 _ hforming hanew
  have hlong := (htoken 2 more hforming fun op hop => hanew op (List.mem_append_left _ hop)).2.2
    fun line hline => nomatch hmore _ hline
  refine ⟨s, more, rfl, rfl, hforming, hdisciplined, hrelocates, honce, hmoves, hpools, ?_⟩
  intro e he
  have hsize := (hlong e he).resolve_left (hrelocates ▸ by decide)
  rwa [hrelocates] at hsize

end Store

end ScriptReader

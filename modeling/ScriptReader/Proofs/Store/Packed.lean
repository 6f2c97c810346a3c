import Mathlib.Data.List.Basic
import ScriptReader.Proofs.Store.Represented

/-!
# Proofs/Store/Packed — how tokens lie in their pools

In every pool the finished tokens lie one after another from its beginning up to its mark
(`Tiles`), there is room behind the mark, and the token being formed does not reach the end of its
pool (`Store.Packed`).  What an operation may do while a token is formed is said once
(`Store.Forms`): it stays in its pool, or the pool is full and room is looked for.  So every
operation leaves a store packed (`Store.packed_apply`), and the pools of a store hold the texts of
its tokens and nothing else (`Store.disciplined_of_packed`).
-/

namespace ScriptReader

open ScriptReader.Text

/-! ## Entries one after another -/

/-- **The entries lie one after another** between two positions, without a gap. -/
inductive Tiles : Nat → List Entry → Nat → Prop
  | nil (pos : Nat) : Tiles pos [] pos
  | cons {e : Entry} {es : List Entry} {last : Nat} (hle : e.first ≤ e.last)
      (h : Tiles e.last es last) : Tiles e.first (e :: es) last

namespace Tiles

variable {first last : Nat} {es : List Entry}

theorem concat {e : Entry} (h : Tiles first es e.first) (hle : e.first ≤ e.last) :
    Tiles first (es ++ [e]) e.last := by
  generalize hpos : e.first = pos at h
  induction h with
  | nil pos =>
    subst hpos
    exact .cons hle (.nil _)
  | cons hle' _ ih => exact .cons hle' (ih hpos)

/-- **Entries one after another hold one text**, what their texts make together. -/
theorem exists_append {p : Pool} {text : Entry → List Char} {before behind : List Char}
    (h : Tiles first es last) (htext : ∀ e ∈ es, p.Has e.first e.last (text e))
    (hp : p.text.toList = before ++ behind) (hbefore : byteCount before = first) :
    ∃ rest, behind = es.flatMap text ++ rest ∧ first + byteCount (es.flatMap text) = last := by
  induction h generalizing before behind with
  | nil => exact ⟨behind, rfl, rfl⟩
  | @cons e es last _ h ih =>
    obtain ⟨⟨before', after, hsplit, hfirst, hlast⟩, htexts⟩ := List.forall_mem_cons.mp htext
    rw [List.append_assoc] at hsplit
    obtain rfl : before' = before :=
      eq_of_byteCount_eq (hsplit.symm.trans hp) (hfirst.trans hbefore.symm)
    obtain rfl : text e ++ after = behind := List.append_cancel_left (hsplit.symm.trans hp)
    rw [← List.append_assoc] at hp
    obtain ⟨rest, rfl, hcount⟩ := ih htexts hp (by rw [byteCount_append, hfirst, hlast])
    refine ⟨rest, by rw [List.flatMap_cons, List.append_assoc], ?_⟩
    rw [List.flatMap_cons, byteCount_append]
    omega

end Tiles

/-! ## Pools with room -/

/-- There is room behind the mark, and the pool is not smaller than usual. -/
structure Pool.Roomy (p : Pool) : Prop where
  least : 1024 ≤ p.size
  filled_lt : p.filled < p.size

/-- A pool that is made for some bytes has room for them. -/
theorem Pool.lt_sizeFor (n : Nat) : n < sizeFor n := by
  rw [sizeFor]
  omega

theorem Pool.roomy_of_sizeFor {p : Pool} {n : Nat} (hsize : p.size = sizeFor n)
    (hfilled : p.filled = 0) : p.Roomy where
  least := by
    rw [hsize, sizeFor]
    omega
  filled_lt := by
    rw [hsize, hfilled]
    exact Nat.zero_lt_of_lt (lt_sizeFor n)

namespace Store

variable {s s' : Store} {r : Record} {ts : List Token} {t : Token}

/-! ## Marks and sizes -/

/-- How many bytes of a pool belong to finished tokens. -/
def filledAt (i : Nat) (s : Store) : Nat := (s.pools[i]?.map Pool.filled).getD 0

/-- How many bytes the current pool may hold. -/
def currentSize (s : Store) : Nat := (s.pools[s.current]?.map Pool.size).getD 0

/-- The finished tokens of a pool, in their order. -/
def finishedIn (i : Nat) (s : Store) : List Entry := s.entries.toList.filter (·.pool = i)

theorem filledAt_eq {i : Nat} {p : Pool} (h : s.pools[i]? = some p) : s.filledAt i = p.filled := by
  rw [filledAt, h, Option.map_some, Option.getD_some]

theorem currentSize_eq {p : Pool} (h : s.pools[s.current]? = some p) : s.currentSize = p.size := by
  rw [currentSize, h, Option.map_some, Option.getD_some]

/-- **The stores are laid out alike**: only the texts of the pools and the token being formed may
differ. -/
structure SameLayout (s s' : Store) : Prop where
  entries : s'.entries = s.entries
  current : s'.current = s.current
  sizes : s'.pools.map Pool.size = s.pools.map Pool.size
  marks : s'.pools.map Pool.filled = s.pools.map Pool.filled

namespace SameLayout

theorem refl (s : Store) : s.SameLayout s := ⟨rfl, rfl, rfl, rfl⟩

theorem trans {mid : Store} (h : s.SameLayout mid) (h' : mid.SameLayout s') : s.SameLayout s' :=
  ⟨h'.entries.trans h.entries, h'.current.trans h.current, h'.sizes.trans h.sizes,
    h'.marks.trans h.marks⟩

theorem forming (e? : Option Entry) (h : s.SameLayout s') :
    s.SameLayout { s' with forming := e? } :=
  ⟨h.entries, h.current, h.sizes, h.marks⟩

/-- What a change to a pool leaves as it is. -/
theorem map_modify {α : Type} {g : Pool → α} (f : Pool → Pool) (hf : ∀ p, g (f p) = g p)
    (pools : Array Pool) (j : Nat) : (pools.modify j f).map g = pools.map g := by
  refine Array.ext_getElem? fun i => ?_
  rw [Array.getElem?_map, Array.getElem?_map, Array.getElem?_modify]
  split
  · cases pools[i]? with
    | none => rfl
    | some p => exact congrArg some (hf p)
  · rfl

/-- A text is changed where tokens are formed. -/
theorem onCurrent (f : Pool → Pool) (hsize : ∀ p, (f p).size = p.size)
    (hfilled : ∀ p, (f p).filled = p.filled) (s : Store) : s.SameLayout (s.onCurrent f) :=
  ⟨rfl, rfl, map_modify f hsize _ _, map_modify f hfilled _ _⟩

variable (h : s.SameLayout s')
include h

theorem poolCount_eq : s'.poolCount = s.poolCount := by
  have hsize := congrArg Array.size h.sizes
  rwa [Array.size_map, Array.size_map] at hsize

theorem filledAt_eq (i : Nat) : s'.filledAt i = s.filledAt i := by
  rw [filledAt, filledAt, ← Array.getElem?_map, ← Array.getElem?_map, h.marks]

theorem currentFilled_eq : s'.currentFilled = s.currentFilled := by
  rw [currentFilled, currentFilled, ← Array.getElem?_map, ← Array.getElem?_map, h.marks, h.current]

theorem currentSize_eq : s'.currentSize = s.currentSize := by
  rw [currentSize, currentSize, ← Array.getElem?_map, ← Array.getElem?_map, h.sizes, h.current]

theorem roomy (hs : ∀ p ∈ s.pools, p.Roomy) : ∀ p ∈ s'.pools, p.Roomy := by
  intro q hq
  obtain ⟨i, hi⟩ := Array.mem_iff_getElem?.mp hq
  have hsize : s'.pools[i]?.map Pool.size = s.pools[i]?.map Pool.size := by
    rw [← Array.getElem?_map, ← Array.getElem?_map, h.sizes]
  have hfilled : s'.pools[i]?.map Pool.filled = s.pools[i]?.map Pool.filled := by
    rw [← Array.getElem?_map, ← Array.getElem?_map, h.marks]
  rw [hi] at hsize hfilled
  obtain ⟨p, hp, hpsize⟩ := Option.map_eq_some_iff.mp hsize.symm
  rw [hp, Option.map_some, Option.map_some, Option.some.injEq] at hfilled
  have hroomy := hs p (Array.mem_of_getElem? hp)
  exact ⟨hpsize ▸ hroomy.least, by rw [hfilled, ← hpsize]; exact hroomy.filled_lt⟩

end SameLayout

/-! ## Looking for room -/

@[simp] theorem filledAt_makeRoom (n i : Nat) (s : Store) :
    (s.makeRoom n).filledAt i = s.filledAt i := by
  fun_induction makeRoom n s with
  | case1 => rfl
  | case2 s =>
    rw [filledAt, filledAt, ← Array.getElem?_map, ← Array.getElem?_map]
    exact congrArg (fun marks => marks[i]?.getD 0)
      (SameLayout.map_modify (Pool.enlarge n) (fun _ => rfl) s.pools s.current)
  | case3 _ _ _ _ ih => exact ih
  | case4 s _ =>
    rw [filledAt, filledAt, Array.getElem?_push]
    split
    · next hi =>
      rw [hi, Array.getElem?_eq_none (Nat.le_refl _)]
      rfl
    · rfl

theorem roomy_modify {j : Nat} {f : Pool → Pool} (hs : ∀ p ∈ s.pools, p.Roomy)
    (hf : ∀ p, s.pools[j]? = some p → p.Roomy → (f p).Roomy) :
    ∀ p ∈ s.pools.modify j f, p.Roomy := by
  intro q hq
  obtain ⟨i, hi⟩ := Array.mem_iff_getElem?.mp hq
  rw [Array.getElem?_modify] at hi
  split at hi
  · next hij =>
    obtain ⟨p, hp, rfl⟩ := Option.map_eq_some_iff.mp hi
    exact hf p (hij ▸ hp) (hs p (Array.mem_of_getElem? hp))
  · exact hs q (Array.mem_of_getElem? hi)

theorem roomy_makeRoom (n : Nat) (hs : ∀ p ∈ s.pools, p.Roomy) :
    ∀ p ∈ (s.makeRoom n).pools, p.Roomy := by
  fun_induction makeRoom n s with
  | case1 => exact hs
  | case2 s hlt _ hfilled =>
    refine roomy_modify hs fun p hp _ => Pool.roomy_of_sizeFor rfl ?_
    rw [Array.getElem?_eq_getElem hlt, Option.some.injEq] at hp
    rw [← hp]
    exact hfilled
  | case3 _ _ _ _ ih => exact ih hs
  | case4 s _ =>
    intro p hp
    rcases Array.mem_push.mp hp with hp | rfl
    · exact hs p hp
    · exact Pool.roomy_of_sizeFor rfl rfl

/-- **Looking for room ends at a pool that has it.** -/
theorem exists_room (n : Nat) (h : s.current ≤ s.pools.size) :
    ∃ p, (s.makeRoom n).pools[(s.makeRoom n).current]? = some p ∧ p.filled + n < p.size := by
  fun_induction makeRoom n s with
  | case1 s hlt hfree =>
    refine ⟨_, Array.getElem?_eq_getElem hlt, ?_⟩
    rw [Pool.free] at hfree
    omega
  | case2 s hlt _ hfilled =>
    refine ⟨s.pools[s.current].enlarge n, ?_, ?_⟩
    · rw [Array.getElem?_modify, if_pos rfl, Array.getElem?_eq_getElem hlt, Option.map_some]
    · change s.pools[s.current].filled + n < Pool.sizeFor n
      rw [hfilled, Nat.zero_add]
      exact Pool.lt_sizeFor n
  | case3 s hlt _ _ ih => exact ih hlt
  | case4 s hlt =>
    have hcurrent : s.current = s.pools.size := Nat.le_antisymm h (Nat.le_of_not_lt hlt)
    refine ⟨.withRoom n, ?_, ?_⟩
    · rw [Array.getElem?_push, if_pos hcurrent]
    · change 0 + n < Pool.sizeFor n
      rw [Nat.zero_add]
      exact Pool.lt_sizeFor n

/-! ## What operations do while a token is formed -/

namespace Op

/-- Does the operation add a character that fills the pool, so that the token being formed has to
move? -/
def relocates : Op → Store → Bool
  | .append c, s => s.forming.any fun e =>
      (s.pools[e.pool]?.map Pool.size).getD 0 ≤ e.last + c.utf8Size
  | _, _ => false

end Op

/-- **What an operation may do while a token is formed.**  The token begins at the mark of the
current pool before and after it.  Either it stays where it is, or its pool is full and it moves to
where there is room. -/
inductive Forms (s s' : Store) : Bool → Prop
  | stays {e : Entry} (hlayout : s.SameLayout s') (hforming : s'.forming = some e)
      (hlast : e.last < s.currentSize) : Forms s s' false
  | relocates {e : Entry} {mid : Store} (hbefore : s.SameLayout mid)
      (hafter : (mid.makeRoom e.size).SameLayout s') (hforming : s'.forming = some e)
      (hlast : e.last = s'.currentFilled + e.size)
      (hfull : s.currentSize ≤ s.currentFilled + e.size) : Forms s s' true

/-- The finished tokens of every pool lie one after another up to its mark, and there is room
behind it. -/
structure Stocked (s : Store) : Prop where
  tiles : ∀ i, Tiles 0 (s.finishedIn i) (s.filledAt i)
  roomy : ∀ p ∈ s.pools, p.Roomy

/-- **The pools are packed**: the store is stocked, and the token being formed does not reach the
end of its pool. -/
structure Packed (s : Store) : Prop where
  stocked : s.Stocked
  fits : ∀ e ∈ s.forming, e.last < s.currentSize

theorem forming_eq (hs : s.Represents ⟨ts, some t⟩) : s.forming = some (s.formingEntry t) :=
  hs.forming

theorem forming_eq_none (hs : s.Represents ⟨ts, none⟩) : s.forming = none := hs.forming

theorem forms_start (hs : s.Represents ⟨ts, some t⟩) (h : s.Packed) (line : Nat) :
    s.Forms (s.start line) false := by
  have hp := Array.getElem?_eq_getElem (hs.current_lt rfl)
  have hfilled := (h.stocked.roomy _ (Array.mem_of_getElem? hp)).filled_lt
  have hlayout : s.SameLayout (s.onCurrent (Pool.truncate s.currentFilled)) :=
    .onCurrent (Pool.truncate s.currentFilled) (fun _ => rfl) (fun _ => rfl) s
  rw [start, forming_eq hs]
  refine .stays (hlayout.forming _) rfl ?_
  change s.currentFilled < s.currentSize
  rwa [currentSize_eq hp, currentFilled_eq hp]

theorem forms_classify (hs : s.Represents ⟨ts, some t⟩) (h : s.Packed) (kind : Kind) :
    s.Forms (s.classify kind) false := by
  have hlast := h.fits _ (forming_eq hs)
  rw [classify, forming_eq hs]
  exact .stays ((SameLayout.refl s).forming _) rfl hlast

/-- Whether a token has to move, the measures of its pool tell. -/
theorem relocates_append (hs : s.Represents ⟨ts, some t⟩) (c : Char) :
    (Op.append c).relocates s
      = decide (s.currentSize ≤ s.currentFilled + byteCount t.text.toList + c.utf8Size) := by
  rw [Op.relocates, forming_eq hs]
  rfl

/-- A token is moved by cutting it off, looking for room and writing it there. -/
theorem exists_layout_moveForming (hs : s.Represents ⟨ts, some t⟩) :
    ∃ mid, s.SameLayout mid
      ∧ (mid.makeRoom (byteCount t.text.toList)).SameLayout (s.moveForming (s.formingEntry t)) := by
  rw [moveForming, text_formingEntry hs.lays (hs.current_lt rfl), size_formingEntry]
  refine ⟨_, .onCurrent (Pool.truncate s.currentFilled) (fun _ => rfl) (fun _ => rfl) s, ?_⟩
  exact (SameLayout.onCurrent (Pool.write t.text) (fun _ => rfl) (fun _ => rfl) _).forming _

theorem forms_append (hs : s.Represents ⟨ts, some t⟩) (c : Char) :
    s.Forms (s.append c) ((Op.append c).relocates s) := by
  have hpushed := represents_push c hs
  have hlayout : s.SameLayout (s.onCurrent (Pool.push c)) :=
    .onCurrent (Pool.push c) (fun _ => rfl) (fun _ => rfl) s
  have hsize : ((s.onCurrent (Pool.push c)).pools[s.current]?.map Pool.size).getD 0
      = s.currentSize := hlayout.currentSize_eq
  rw [relocates_append hs, append, forming_eq hs]
  dsimp only
  split
  · next hlt =>
    have hroom : s.currentFilled + byteCount t.text.toList + c.utf8Size < s.currentSize :=
      Nat.lt_of_lt_of_eq hlt hsize
    rw [decide_eq_false (Nat.not_le_of_gt hroom)]
    exact .stays (hlayout.forming _) rfl hroom
  · next hle =>
    have hfull : s.currentSize ≤ s.currentFilled + byteCount t.text.toList + c.utf8Size :=
      Nat.le_trans (Nat.le_of_eq hsize.symm) (Nat.le_of_not_lt hle)
    have hmoved := represents_moveForming hpushed
    obtain ⟨mid, hbefore, hafter⟩ := exists_layout_moveForming hpushed
    rw [← Option.some.inj hpushed.forming] at hmoved hafter
    have hcount : byteCount (t.text.push c).toList = byteCount t.text.toList + c.utf8Size := by
      rw [String.toList_push, byteCount_append, byteCount_cons, byteCount_nil, Nat.add_zero]
    rw [decide_eq_true hfull]
    refine .relocates ((hlayout.forming _).trans hbefore) ?_ (forming_eq hmoved) ?_ ?_
    · rwa [size_formingEntry]
    · rw [size_formingEntry]
      rfl
    · rw [size_formingEntry, hcount, ← Nat.add_assoc]
      exact hfull

/-- **While a token is formed, an operation does what `Forms` says.** -/
theorem forms_apply {op : Op} (hs : s.Represents r) (h : s.Packed) (hforming : s.forming.isSome)
    (hop : op ≠ .finish ∧ op ≠ .clear) : s.Forms (op.apply s) (op.relocates s) := by
  obtain ⟨ts, - | t⟩ := r
  · rw [forming_eq_none hs] at hforming
    cases hforming
  · cases op with
    | start line => exact forms_start hs h line
    | append c => exact forms_append hs c
    | classify kind => exact forms_classify hs h kind
    | finish => exact absurd rfl hop.1
    | clear => exact absurd rfl hop.2

/-! ## Packed stores -/

namespace Stocked

theorem of_layout (h : s.Stocked) (hlayout : s.SameLayout s') : s'.Stocked where
  tiles i := by
    rw [hlayout.filledAt_eq, finishedIn, hlayout.entries]
    exact h.tiles i
  roomy := hlayout.roomy h.roomy

theorem makeRoom (n : Nat) (h : s.Stocked) : (s.makeRoom n).Stocked where
  tiles i := by
    rw [filledAt_makeRoom, finishedIn, entries_makeRoom]
    exact h.tiles i
  roomy := roomy_makeRoom n h.roomy

theorem clear (h : s.Stocked) : s.clear.Stocked where
  tiles i := by
    have hfilled : s.clear.filledAt i = 0 := by
      rw [filledAt, Store.clear, Array.getElem?_map]
      cases s.pools[i]? with
      | none => rfl
      | some p => rfl
    rw [hfilled]
    exact .nil 0
  roomy q hq := by
    obtain ⟨p, hp, rfl⟩ := Array.mem_map.mp hq
    have hroomy := h.roomy p hp
    exact ⟨hroomy.least, Nat.zero_lt_of_lt hroomy.filled_lt⟩

end Stocked

/-- Without a token under way nothing more is asked for. -/
theorem Packed.of_idle (h : s.Stocked) (hforming : s.forming = none) : s.Packed := by
  refine ⟨h, fun e he => ?_⟩
  rw [hforming] at he
  exact absurd he (Option.not_mem_none e)

theorem packed_empty : empty.Packed :=
  .of_idle ⟨fun _ => .nil 0, fun p hp => absurd hp (Array.not_mem_empty p)⟩ rfl

/-- Where room is found for a token, it does not reach the end. -/
theorem lt_currentSize_of_room {n : Nat} (h : s.current ≤ s.pools.size)
    (hlayout : (s.makeRoom n).SameLayout s') : s'.currentFilled + n < s'.currentSize := by
  obtain ⟨p, hp, hroom⟩ := exists_room n h
  rw [hlayout.currentFilled_eq, hlayout.currentSize_eq, currentFilled_eq hp, currentSize_eq hp]
  exact hroom

theorem Forms.packed {relocated : Bool} (hforms : s.Forms s' relocated)
    (hcurrent : s.current ≤ s.pools.size) (h : s.Packed) : s'.Packed := by
  cases hforms with
  | stays hlayout hforming hlast =>
    refine ⟨h.stocked.of_layout hlayout, fun e he => ?_⟩
    rw [hforming] at he
    cases he
    rwa [hlayout.currentSize_eq]
  | @relocates e mid hbefore hafter hforming hlast =>
    refine ⟨((h.stocked.of_layout hbefore).makeRoom e.size).of_layout hafter, fun e' he => ?_⟩
    rw [hforming] at he
    cases he
    have hmid : mid.current ≤ mid.pools.size := by
      rw [hbefore.current]
      exact Nat.le_trans hcurrent (Nat.le_of_eq hbefore.poolCount_eq.symm)
    rw [hlast]
    exact lt_currentSize_of_room hmid hafter

/-- A token is begun where there is room behind the mark. -/
theorem packed_start_idle (line : Nat) (hs : s.Represents ⟨ts, none⟩) (h : s.Packed) :
    (s.start line).Packed := by
  rw [start, forming_eq_none hs]
  refine ⟨(h.stocked.makeRoom 0).of_layout ((SameLayout.refl _).forming _), fun e he => ?_⟩
  cases he
  have hroom := lt_currentSize_of_room hs.lays.current_le (SameLayout.refl (s.makeRoom 0))
  exact hroom

theorem filledAt_fill {n : Nat} (h : s.current < s.pools.size) (i : Nat) :
    (s.onCurrent (Pool.fill n)).filledAt i = s.filledAt i + if s.current = i then n else 0 := by
  rw [filledAt, filledAt, onCurrent, Array.getElem?_modify]
  split
  · next hi =>
    subst hi
    rw [Array.getElem?_eq_getElem h]
    rfl
  · rfl

/-- A token that is finished lies behind those of its pool, and the mark is moved behind it. -/
theorem packed_finish (hs : s.Represents ⟨ts, some t⟩) (h : s.Packed) : s.finish.Packed := by
  have hlt := hs.current_lt rfl
  have hp := Array.getElem?_eq_getElem hlt
  have hlast : s.currentFilled + byteCount t.text.toList < s.currentSize :=
    h.fits _ (forming_eq hs)
  rw [currentSize_eq hp, currentFilled_eq hp] at hlast
  rw [finish, forming_eq hs]
  simp only [size_formingEntry]
  refine .of_idle ⟨fun i => ?_, roomy_modify h.stocked.roomy fun p hp' hroomy => ?_⟩ rfl
  · change Tiles 0 ((s.entries.push (s.formingEntry t)).toList.filter (·.pool = i))
      ((s.onCurrent (Pool.fill (byteCount t.text.toList))).filledAt i)
    have htiles := h.stocked.tiles i
    rw [finishedIn] at htiles
    rw [filledAt_fill hlt, Array.toList_push, List.filter_append, List.filter_singleton]
    by_cases hi : s.current = i
    · subst hi
      have hpool : decide ((s.formingEntry t).pool = s.current) = true := decide_eq_true rfl
      rw [hpool, cond_true, if_pos rfl]
      exact htiles.concat (e := s.formingEntry t) (Nat.le_add_right _ _)
    · have hpool : decide ((s.formingEntry t).pool = i) = false := decide_eq_false hi
      rw [hpool, cond_false, if_neg hi, List.append_nil]
      exact htiles
  · obtain rfl := Option.some.inj (hp.symm.trans hp')
    exact ⟨hroomy.least, hlast⟩

/-- **Every operation leaves a store packed.** -/
theorem packed_apply (op : Op) (hs : s.Represents r) (h : s.Packed) : (op.apply s).Packed := by
  obtain ⟨ts, - | t⟩ := r
  · have hnone := forming_eq_none hs
    cases op with
    | start line => exact packed_start_idle line hs h
    | append c =>
      rw [Op.apply, append, hnone]
      exact h
    | classify kind =>
      rw [Op.apply, classify, hnone]
      exact .of_idle (h.stocked.of_layout ((SameLayout.refl s).forming none)) rfl
    | finish =>
      rw [Op.apply, finish, hnone]
      exact h
    | clear => exact .of_idle h.stocked.clear rfl
  · have hforms (hop : op ≠ .finish ∧ op ≠ .clear) : s.Forms (op.apply s) (op.relocates s) :=
      forms_apply hs h (by rw [forming_eq hs]; rfl) hop
    cases op with
    | finish => exact packed_finish hs h
    | clear => exact .of_idle h.stocked.clear rfl
    | _ => exact (hforms (by simp)).packed hs.lays.current_le h

theorem packed_run (ops : List Op) (hs : s.Represents r) (h : s.Packed) : (run ops s).Packed := by
  induction ops generalizing s r with
  | nil => exact h
  | cons op ops ih => exact ih (represents_apply op hs) (packed_apply op hs h)

/-! ## What pools hold -/

/-- The tokens of a pool in their order, the one being formed behind the finished ones. -/
def spansIn (i : Nat) (s : Store) : List Entry :=
  (s.entries.toList ++ s.forming.toList).filter (·.pool = i)

/-- **The pools hold the texts of the tokens and nothing else.** -/
structure Disciplined (s : Store) : Prop where
  /-- A token's text is a stretch of its pool, between whole characters. -/
  has : ∀ e ∈ s.entries.toList ++ s.forming.toList,
    ∃ p, s.pools[e.pool]? = some p ∧ p.Has e.first e.last (s.text e).toList
  /-- The finished tokens of a pool lie one after another up to its mark. -/
  tiles : ∀ i p, s.pools[i]? = some p → Tiles 0 (s.finishedIn i) p.filled
  /-- Their texts make up that of the pool, with the text that is being formed there. -/
  text_eq : ∀ i p, s.pools[i]? = some p → p.text = String.join ((s.spansIn i).map s.text)
  filled_lt : ∀ p ∈ s.pools, p.filled < p.size
  /-- A token is formed at the mark of the current pool, and ends before the pool does. -/
  forming : ∀ e ∈ s.forming, e.pool = s.current
    ∧ ∃ p, s.pools[s.current]? = some p ∧ e.first = p.filled ∧ e.last < p.size
  later : ∀ i p, s.current < i → s.pools[i]? = some p → p.filled = 0 ∧ p.text = ""

theorem has_of_represents (hs : s.Represents r) {e : Entry}
    (he : e ∈ s.entries.toList ++ s.forming.toList) :
    ∃ p, s.pools[e.pool]? = some p ∧ p.Has e.first e.last (s.text e).toList := by
  rcases List.mem_append.mp he with he | he
  · obtain ⟨p, hp, -, text, htext⟩ := hs.lays.settled e (Array.mem_toList_iff.mp he)
    refine ⟨p, hp, ?_⟩
    rwa [Store.text, hp, Option.map_some, Option.getD_some, Pool.slice_of_has htext,
      String.toList_ofList]
  · obtain ⟨ts, - | t⟩ := r
    · rw [forming_eq_none hs] at he
      cases he
    · rw [forming_eq hs, Option.toList_some, List.mem_singleton] at he
      subst he
      have hlt := hs.current_lt rfl
      have hp := Array.getElem?_eq_getElem hlt
      refine ⟨_, hp, ?_⟩
      rw [text_formingEntry hs.lays hlt, formingEntry, currentFilled_eq hp]
      exact Pool.has_of_ends (ends_current hs.lays hp)

/-- Behind the finished tokens of a pool there is the text that is being formed there. -/
theorem flatMap_forming (hs : s.Represents r) (i : Nat) :
    (s.forming.toList.filter (·.pool = i)).flatMap (fun e => (s.text e).toList)
      = if i = s.current then r.unsettled else [] := by
  obtain ⟨ts, - | t⟩ := r
  · rw [forming_eq_none hs]
    exact (ite_self []).symm
  · rw [forming_eq hs, Option.toList_some, List.filter_singleton]
    by_cases hi : s.current = i
    · have hpool : decide ((s.formingEntry t).pool = i) = true := decide_eq_true hi
      rw [hpool, cond_true, if_pos hi.symm, List.flatMap_singleton,
        text_formingEntry hs.lays (hs.current_lt rfl)]
      rfl
    · have hpool : decide ((s.formingEntry t).pool = i) = false := decide_eq_false hi
      rw [hpool, cond_false, if_neg (Ne.symm hi)]
      rfl

/-- **The text of a pool is that of its tokens.** -/
theorem text_eq_of_packed (hs : s.Represents r) (h : s.Packed) {i : Nat} {p : Pool}
    (hp : s.pools[i]? = some p) : p.text = String.join ((s.spansIn i).map s.text) := by
  obtain ⟨settled, htext, hfilled⟩ := hs.lays.ends i p hp
  have htiles := h.stocked.tiles i
  have hhas : ∀ e ∈ s.finishedIn i, p.Has e.first e.last (s.text e).toList := by
    intro e he
    obtain ⟨he, hi⟩ := List.mem_filter.mp he
    obtain ⟨q, hq, hhas⟩ := has_of_represents hs (List.mem_append_left _ he)
    rw [of_decide_eq_true hi, hp] at hq
    exact Option.some.inj hq ▸ hhas
  rw [filledAt_eq hp] at htiles
  obtain ⟨rest, hrest, hcount⟩ := htiles.exists_append hhas (List.nil_append _).symm rfl
  have hsettled : settled = (s.finishedIn i).flatMap fun e => (s.text e).toList :=
    eq_of_byteCount_eq (htext.symm.trans hrest) (by omega)
  apply String.toList_injective
  rw [String.toList_join, List.flatMap_map, spansIn, List.filter_append, List.flatMap_append,
    flatMap_forming hs, htext, hsettled]
  rfl

theorem disciplined_of_packed (hs : s.Represents r) (h : s.Packed) : s.Disciplined where
  has _ := has_of_represents hs
  tiles i p hp := filledAt_eq hp ▸ h.stocked.tiles i
  text_eq _ _ := text_eq_of_packed hs h
  filled_lt p hp := (h.stocked.roomy p hp).filled_lt
  forming e he := by
    obtain ⟨ts, - | t⟩ := r
    · rw [forming_eq_none hs] at he
      cases he
    · have hlast := h.fits e he
      have hp := Array.getElem?_eq_getElem (hs.current_lt rfl)
      rw [forming_eq hs] at he
      cases he
      rw [currentSize_eq hp] at hlast
      exact ⟨rfl, _, hp, currentFilled_eq hp, hlast⟩
  later i p hi hp := by
    have hfilled := hs.lays.later i p hi hp
    obtain ⟨settled, htext, hcount⟩ := hs.lays.ends i p hp
    rw [if_neg (Nat.ne_of_gt hi), List.append_nil] at htext
    refine ⟨hfilled, String.toList_injective ?_⟩
    rw [htext]
    exact eq_nil_of_byteCount_eq_zero (hcount.trans hfilled)

end Store

end ScriptReader

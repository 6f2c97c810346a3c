import ScriptReader.Store

/-!
# Proofs/Store/Settled — what finished tokens keep while others are formed

Below its mark `filled` a pool is settled: forming a token writes behind the mark, moving one cuts
at the mark, and an empty pool has nothing to lose when it is enlarged.  `Store.Keeps` says that
what lies in the settled part of a pool still lies there, and `Store.text_of_keeps` that the text of
a settled entry is then the same.  `Store.tidy_makeRoom` is what the search for room amounts to.
-/

namespace ScriptReader

open ScriptReader.Text

/-! ## Texts by their bytes -/

namespace Text

theorem eq_nil_of_byteCount_eq_zero {t : List Char} (h : byteCount t = 0) : t = [] := by
  cases t with
  | nil => rfl
  | cons c t =>
    have := c.utf8Size_pos
    rw [byteCount_cons] at h
    omega

/-- Two beginnings of one text, the shorter in bytes first. -/
theorem exists_append_of_byteCount_le {a b c d : List Char} (h : a ++ b = c ++ d)
    (hle : byteCount a ≤ byteCount c) : ∃ e, c = a ++ e := by
  rcases List.append_eq_append_iff.mp h with ⟨e, rfl, -⟩ | ⟨e, rfl, -⟩
  · exact ⟨e, rfl⟩
  · rw [byteCount_append] at hle
    obtain rfl := eq_nil_of_byteCount_eq_zero (t := e) (by omega)
    exact ⟨[], by simp⟩

/-- Beginnings of one text with equally many bytes are the same. -/
theorem eq_of_byteCount_eq {a b c d : List Char} (h : a ++ b = c ++ d)
    (heq : byteCount a = byteCount c) : a = c := by
  obtain ⟨e, rfl⟩ := exists_append_of_byteCount_le h (Nat.le_of_eq heq)
  rw [byteCount_append] at heq
  rw [eq_nil_of_byteCount_eq_zero (t := e) (by omega), List.append_nil]

end Text

/-! ## Texts in a pool -/

namespace Pool

/-- The text `t` lies between two byte positions of the pool. -/
def Has (first last : Nat) (t : List Char) (p : Pool) : Prop :=
  ∃ before after, p.text.toList = before ++ t ++ after ∧ byteCount before = first ∧
    last = first + byteCount t

/-- Behind what is settled, the pool ends in the text `t`. -/
def Ends (t : List Char) (p : Pool) : Prop :=
  ∃ settled, p.text.toList = settled ++ t ∧ byteCount settled = p.filled

/-- What lies in the settled part of `p` lies in the settled part of `q`. -/
def Keeps (p q : Pool) : Prop :=
  ∀ first last t, last ≤ p.filled → p.Has first last t → last ≤ q.filled ∧ q.Has first last t

theorem slice_of_has {first last : Nat} {t : List Char} {p : Pool} (h : p.Has first last t) :
    p.slice first last = String.ofList t := by
  obtain ⟨before, after, htext, rfl, rfl⟩ := h
  rw [slice, htext, slice?_append, Option.getD_some]

theorem has_of_ends {t : List Char} {p : Pool} (h : p.Ends t) :
    p.Has p.filled (p.filled + byteCount t) t := by
  obtain ⟨settled, htext, hfilled⟩ := h
  exact ⟨settled, [], by rw [htext, List.append_nil], hfilled, rfl⟩

/-- A pool cut at its mark has nothing behind it. -/
theorem toList_truncate {t : List Char} {p : Pool} (h : p.Ends t) :
    ∃ settled, p.text.toList = settled ++ t ∧ byteCount settled = p.filled ∧
      (p.truncate p.filled).text.toList = settled := by
  obtain ⟨settled, htext, hfilled⟩ := h
  refine ⟨settled, htext, hfilled, ?_⟩
  have hhas : p.Has 0 p.filled settled :=
    ⟨[], t, by rw [htext, List.nil_append], rfl, by rw [hfilled, Nat.zero_add]⟩
  rw [truncate, slice_of_has hhas, String.toList_ofList]

/-! ## What operations leave behind the mark -/

theorem ends_push {t : List Char} {p : Pool} (c : Char) (h : p.Ends t) :
    (p.push c).Ends (t ++ [c]) := by
  obtain ⟨settled, htext, hfilled⟩ := h
  exact ⟨settled, by rw [push, String.toList_push, htext, List.append_assoc], hfilled⟩

theorem ends_write {t : List Char} {p : Pool} (s : String) (h : p.Ends t) :
    (p.write s).Ends (t ++ s.toList) := by
  obtain ⟨settled, htext, hfilled⟩ := h
  exact ⟨settled, by rw [write, String.toList_append, htext, List.append_assoc], hfilled⟩

theorem ends_truncate {t : List Char} {p : Pool} (h : p.Ends t) :
    (p.truncate p.filled).Ends [] := by
  obtain ⟨settled, -, hfilled, htext⟩ := toList_truncate h
  exact ⟨settled, by rw [htext, List.append_nil], hfilled⟩

theorem ends_fill {t : List Char} {p : Pool} (h : p.Ends t) : (p.fill (byteCount t)).Ends [] := by
  obtain ⟨settled, htext, hfilled⟩ := h
  exact ⟨settled ++ t, by rw [fill, htext, List.append_nil],
    by rw [byteCount_append, hfilled, fill]⟩

theorem ends_withRoom (n : Nat) : (withRoom n).Ends [] := ⟨[], rfl, rfl⟩

theorem ends_reset (p : Pool) : p.reset.Ends [] := ⟨[], rfl, rfl⟩

theorem ends_enlarge {p : Pool} (n : Nat) (h : p.filled = 0) : (p.enlarge n).Ends [] :=
  ⟨[], rfl, h.symm⟩

/-! ## What operations keep -/

theorem keeps_refl (p : Pool) : p.Keeps p := fun _ _ _ hlast h => ⟨hlast, h⟩

theorem keeps_trans {p q r : Pool} (hpq : p.Keeps q) (hqr : q.Keeps r) : p.Keeps r := by
  intro first last t hlast h
  obtain ⟨hlast', h'⟩ := hpq first last t hlast h
  exact hqr first last t hlast' h'

theorem has_append {first last : Nat} {t more : List Char} {p q : Pool}
    (hq : q.text.toList = p.text.toList ++ more) (h : p.Has first last t) :
    q.Has first last t := by
  obtain ⟨before, after, htext, hfirst, hlast⟩ := h
  exact ⟨before, after ++ more, by rw [hq, htext, List.append_assoc], hfirst, hlast⟩

theorem keeps_push (c : Char) (p : Pool) : p.Keeps (p.push c) := by
  intro first last t hlast h
  exact ⟨hlast, has_append (by rw [push, String.toList_push]) h⟩

theorem keeps_write (s : String) (p : Pool) : p.Keeps (p.write s) := by
  intro first last t hlast h
  exact ⟨hlast, has_append (by rw [write, String.toList_append]) h⟩

theorem keeps_fill (n : Nat) (p : Pool) : p.Keeps (p.fill n) := by
  intro first last t hlast h
  exact ⟨Nat.le_trans hlast (Nat.le_add_right _ _), h⟩

theorem keeps_truncate {t : List Char} {p : Pool} (hp : p.Ends t) :
    p.Keeps (p.truncate p.filled) := by
  rintro first last u hlast ⟨before, after, htext, hfirst, hlast'⟩
  obtain ⟨settled, hsettled, hfilled, hcut⟩ := toList_truncate hp
  obtain ⟨rest, hrest⟩ := exists_append_of_byteCount_le (htext.symm.trans hsettled)
    (by rw [byteCount_append]; omega)
  exact ⟨hlast, before, rest, by rw [hcut, hrest], hfirst, hlast'⟩

/-- What lies in the settled part of an empty pool is the empty text at its beginning. -/
theorem keeps_of_filled_eq_zero {p : Pool} (h : p.filled = 0) (q : Pool) : p.Keeps q := by
  rintro first last t hlast ⟨before, after, -, hfirst, hlast'⟩
  obtain rfl := eq_nil_of_byteCount_eq_zero (t := t) (by omega)
  refine ⟨by omega, [], q.text.toList, rfl, ?_, hlast'⟩
  rw [byteCount_nil]
  omega

end Pool

/-! ## Settled entries -/

namespace Store

/-- The entry's text lies in the settled part of its pool. -/
def Settled (e : Entry) (s : Store) : Prop :=
  ∃ p, s.pools[e.pool]? = some p ∧ e.last ≤ p.filled ∧ ∃ t, p.Has e.first e.last t

/-- **Every pool of `s` is still there in `s'`**, and keeps what is settled in it. -/
def Keeps (s s' : Store) : Prop :=
  ∀ (i : Nat) (p : Pool), s.pools[i]? = some p →
    ∃ q : Pool, s'.pools[i]? = some q ∧ p.Keeps q

theorem keeps_of_pools_eq {s s' : Store} (h : s'.pools = s.pools) : s.Keeps s' :=
  fun _ p hp => ⟨p, by rw [h, hp], p.keeps_refl⟩

theorem keeps_trans {s s' s'' : Store} (h : s.Keeps s') (h' : s'.Keeps s'') : s.Keeps s'' := by
  intro i p hp
  obtain ⟨q, hq, hpq⟩ := h i p hp
  obtain ⟨r, hr, hqr⟩ := h' i q hq
  exact ⟨r, hr, Pool.keeps_trans hpq hqr⟩

/-- A change to one pool that keeps what is settled there keeps everything. -/
theorem keeps_modify {s s' : Store} {j : Nat} {f : Pool → Pool}
    (hpools : s'.pools = s.pools.modify j f) (hf : ∀ p, s.pools[j]? = some p → p.Keeps (f p)) :
    s.Keeps s' := by
  intro i p hp
  rw [hpools, Array.getElem?_modify, hp]
  split
  · next hij => exact ⟨f p, rfl, hf p (hij ▸ hp)⟩
  · exact ⟨p, rfl, p.keeps_refl⟩

theorem keeps_push {s s' : Store} {q : Pool} (hpools : s'.pools = s.pools.push q) :
    s.Keeps s' := by
  intro i p hp
  refine ⟨p, ?_, p.keeps_refl⟩
  obtain ⟨hi, -⟩ := Array.getElem?_eq_some_iff.mp hp
  rw [hpools, Array.getElem?_push_lt hi, ← hp, Array.getElem?_eq_getElem hi]

theorem settled_of_keeps {e : Entry} {s s' : Store} (h : s.Keeps s') (he : s.Settled e) :
    s'.Settled e := by
  obtain ⟨p, hp, hlast, t, ht⟩ := he
  obtain ⟨q, hq, hpq⟩ := h _ _ hp
  obtain ⟨hlast', ht'⟩ := hpq _ _ _ hlast ht
  exact ⟨q, hq, hlast', t, ht'⟩

/-- **The text of a settled entry stays as it is.** -/
theorem text_of_keeps {e : Entry} {s s' : Store} (h : s.Keeps s') (he : s.Settled e) :
    s'.text e = s.text e := by
  obtain ⟨p, hp, hlast, t, ht⟩ := he
  obtain ⟨q, hq, hpq⟩ := h _ _ hp
  rw [text, text, hp, hq, Option.map_some, Option.map_some, Option.getD_some, Option.getD_some,
    Pool.slice_of_has ht, Pool.slice_of_has (hpq _ _ _ hlast ht).2]

theorem token_of_keeps {e : Entry} {s s' : Store} (h : s.Keeps s') (he : s.Settled e) :
    s'.token e = s.token e := by
  rw [token, token, text_of_keeps h he]

/-! ## Looking for room -/

/-- No pool has text behind its mark, and the pools after the current one are empty. -/
structure Tidy (s : Store) : Prop where
  ends : ∀ (i : Nat) (p : Pool), s.pools[i]? = some p → p.Ends []
  later : ∀ (i : Nat) (p : Pool), s.current < i → s.pools[i]? = some p → p.filled = 0

theorem tidy_modify_enlarge {s : Store} (hs : s.Tidy) (h : s.current < s.pools.size)
    (hfilled : s.pools[s.current].filled = 0) (n : Nat) :
    Tidy { s with pools := s.pools.modify s.current (Pool.enlarge n) } := by
  have hcur : s.pools[s.current]? = some s.pools[s.current] := Array.getElem?_eq_getElem h
  refine ⟨fun i p hp => ?_, fun i p hi hp => ?_⟩
  · rw [Array.getElem?_modify] at hp
    split at hp
    · next hij =>
      subst hij
      rw [hcur, Option.map_some, Option.some.injEq] at hp
      exact hp ▸ Pool.ends_enlarge n hfilled
    · exact hs.ends i p hp
  · rw [Array.getElem?_modify, if_neg (Nat.ne_of_lt hi)] at hp
    exact hs.later i p hi hp

theorem tidy_push {s : Store} (hs : s.Tidy) (n : Nat) :
    Tidy { s with pools := s.pools.push (Pool.withRoom n) } := by
  refine ⟨fun i p hp => ?_, fun i p hi hp => ?_⟩ <;> rw [Array.getElem?_push] at hp <;>
    split at hp
  · exact Option.some.inj hp ▸ Pool.ends_withRoom n
  · exact hs.ends i p hp
  · exact Option.some.inj hp ▸ rfl
  · exact hs.later i p hi hp

theorem keeps_makeRoom (n : Nat) (s : Store) : s.Keeps (s.makeRoom n) := by
  fun_induction makeRoom n s with
  | case1 => exact keeps_of_pools_eq rfl
  | case2 s h _ hfilled =>
    refine keeps_modify rfl fun p hp => Pool.keeps_of_filled_eq_zero ?_ _
    rw [Array.getElem?_eq_getElem h, Option.some.injEq] at hp
    exact hp ▸ hfilled
  | case3 s _ _ _ ih => exact keeps_trans (keeps_of_pools_eq (s := s) rfl) ih
  | case4 => exact keeps_push rfl

theorem current_makeRoom_lt {s : Store} (n : Nat) (h : s.current ≤ s.pools.size) :
    (s.makeRoom n).current < (s.makeRoom n).pools.size := by
  fun_induction makeRoom n s with
  | case1 s hlt => exact hlt
  | case2 s hlt => rw [Array.size_modify]; exact hlt
  | case3 s hlt _ _ ih => exact ih hlt
  | case4 s _ => rw [Array.size_push]; exact Nat.lt_succ_of_le h

/-- **Looking for room leaves tidy what was tidy.** -/
theorem tidy_makeRoom {s : Store} (n : Nat) (hs : s.Tidy) : (s.makeRoom n).Tidy := by
  fun_induction makeRoom n s with
  | case1 => exact hs
  | case2 s h _ hfilled => exact tidy_modify_enlarge hs h hfilled n
  | case3 s _ _ _ ih => exact ih ⟨hs.ends, fun i p hi => hs.later i p (Nat.lt_of_succ_lt hi)⟩
  | case4 s _ => exact tidy_push hs n

end Store

end ScriptReader

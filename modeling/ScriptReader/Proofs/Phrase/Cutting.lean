import ScriptReader.Proofs.Expr.Divided
import ScriptReader.Proofs.Expr.Rules
import ScriptReader.Proofs.Source.Layout

/-!
# Proofs/Phrase/Cutting — nested tokens are cut into nested tokens

What stands outside all brackets stands where a group begins (`Row.exists_of_findOutside?`), so that
a cut there goes between groups and leaves nested tokens on either side.  Hence segments are nested
(`Nested.segment`), and in a phrase of nested tokens no search for a bracket fails: it is enclosed
or it is not (`Phrase.exists_isEnclosed`), its items are its groups (`Phrase.items_eq`), and it is
divided between them (`Phrase.nested_of_lowest`).
-/

namespace ScriptReader

open ScriptReader.Bracket

/-! ## Where a group begins -/

/-- Of a group only the first token stands outside all brackets. -/
theorem Group.findOutside?_eq_some {g : List Token} (h : Group g) {text : String} {k : Nat}
    (hk : findOutside? text 0 g = some k) : k = 0 ∧ ∃ t ts, g = t :: ts ∧ t.text = text := by
  cases h with
  | @token t ht =>
    rw [findOutside?] at hk
    split at hk
    · next heq =>
      cases hk
      exact ⟨rfl, t, [], rfl, heq.2⟩
    · cases hk
  | @bracketed b o c gs ho hc hgs =>
    by_cases heq : o.text = text
    · rw [findOutside?, if_pos ⟨rfl, heq⟩] at hk
      cases hk
      exact ⟨rfl, o, _, rfl, heq⟩
    · have hin := findOutside?_bracketed_append b ho hc ⟨gs, hgs, rfl⟩ heq []
      rw [List.append_nil, hk] at hin
      cases hin

/-- **Where a text stands outside all brackets, a group begins.** -/
theorem Row.exists_of_findOutside? {gs : List (List Token)} (h : Row gs) {text : String} {k : Nat}
    (hk : findOutside? text 0 gs.flatten = some k) :
    ∃ as g bs t ts, gs = as ++ g :: bs ∧ as.flatten.length = k ∧ g = t :: ts ∧ t.text = text := by
  induction gs generalizing k with
  | nil => cases hk
  | cons g gs ih =>
    have hg := h g List.mem_cons_self
    rw [List.flatten_cons, hg.nested.findOutside?_append] at hk
    cases hfirst : findOutside? text 0 g with
    | some j =>
      rw [hfirst, Option.some_or] at hk
      cases hk
      obtain ⟨rfl, t, ts, hts, ht⟩ := hg.findOutside?_eq_some hfirst
      exact ⟨[], g, gs, t, ts, rfl, rfl, hts, ht⟩
    | none =>
      rw [hfirst, Option.none_or] at hk
      obtain ⟨j, hj, rfl⟩ := Option.map_eq_some_iff.mp hk
      obtain ⟨as, g', bs, t, ts, rfl, rfl, hts, ht⟩ :=
        ih (fun g' hg' => h g' (List.mem_cons_of_mem _ hg')) hj
      refine ⟨g :: as, g', bs, t, ts, rfl, ?_, hts, ht⟩
      rw [List.flatten_cons, List.length_append, Nat.add_comm]

theorem Row.left {as bs : List (List Token)} (h : Row (as ++ bs)) : Row as :=
  fun g hg => h g (List.mem_append_left _ hg)

theorem Row.right {as bs : List (List Token)} (h : Row (as ++ bs)) : Row bs :=
  fun g hg => h g (List.mem_append_right _ hg)

theorem Row.nested {gs : List (List Token)} (h : Row gs) : Nested gs.flatten := ⟨gs, h, rfl⟩

/-- A group that begins with a plain token is this token. -/
theorem Group.eq_singleton {t : Token} {ts : List Token} (h : Group (t :: ts)) (ht : t.IsPlain) :
    ts = [] := by
  cases h with
  | token => rfl
  | bracketed b ho => exact absurd ho (ht.ne_openerText b)

/-! ## Partners -/

/-- A place in a row is a place in one of its parts. -/
theorem exists_of_flatten_eq {α : Type} {gs : List (List α)} {as rest : List α} {a : α}
    (h : gs.flatten = as ++ a :: rest) : ∃ g ∈ gs, ∃ before as' rest' behind,
      g = as' ++ a :: rest' ∧ as = before ++ as' ∧ rest = rest' ++ behind := by
  induction gs generalizing as with
  | nil => simp at h
  | cons g gs ih =>
    rw [List.flatten_cons] at h
    rcases List.append_eq_append_iff.mp h with ⟨as', rfl, htail⟩ | ⟨ds, rfl, htail⟩
    · obtain ⟨g', hg', before, as'', rest', behind, rfl, rfl, rfl⟩ := ih htail
      exact ⟨_, List.mem_cons_of_mem _ hg', g ++ before, as'', rest', behind, rfl,
        (List.append_assoc _ _ _).symm, rfl⟩
    · cases ds with
      | nil =>
        have hflat : gs.flatten = [] ++ a :: rest := htail.symm
        obtain ⟨g', hg', before, as', rest', behind, hg, has, hrest⟩ := ih hflat
        refine ⟨g', List.mem_cons_of_mem _ hg', as ++ before, as', rest', behind, hg, ?_, hrest⟩
        rw [List.append_assoc, ← has, List.append_nil]
      | cons d ds =>
        obtain ⟨rfl, rfl⟩ := List.cons.inj htail
        exact ⟨_, List.mem_cons_self, [], as, ds, gs.flatten, rfl, rfl, rfl⟩

/-- **The partner of a bracket in a group is in the group**, and what is between them is nested. -/
theorem Group.exists_partner {g : List Token} (h : Group g) (b : Bracket) :
    ∀ {before behind : List Token} {t : Token}, g = before ++ t :: behind →
      (t.text = b.openerText →
        ∃ inner c rest, behind = inner ++ c :: rest ∧ c.text = b.closerText ∧ Nested inner)
      ∧ (t.text = b.closerText →
        ∃ rest o inner, before = rest ++ o :: inner ∧ o.text = b.openerText ∧ Nested inner) := by
  induction h with
  | @token u hu =>
    intro before behind t hg
    obtain ⟨rfl, hbehind⟩ : before = [] ∧ behind = [] := by
      have hlen := congrArg List.length hg
      simp only [List.length_append, List.length_cons, List.length_nil] at hlen
      exact ⟨List.length_eq_zero_iff.mp (by omega), List.length_eq_zero_iff.mp (by omega)⟩
    obtain ⟨rfl, -⟩ := List.cons.inj hg
    exact ⟨fun ht => absurd ht (hu.ne_openerText b), fun ht => absurd ht (hu.ne_closerText b)⟩
  | @bracketed b' o c gs ho hc hgs ih =>
    intro before behind t hg
    cases before with
    | nil =>
      obtain ⟨rfl, rfl⟩ := List.cons.inj hg
      refine ⟨fun ht => ⟨gs.flatten, c, [], rfl, ?_, gs, hgs, rfl⟩, fun ht => ?_⟩
      · rw [hc, openerText_inj (ho.symm.trans ht)]
      · exact absurd (ho.symm.trans ht) (openerText_ne_closerText _ _)
    | cons u before =>
      obtain rfl : o = u := (List.cons.inj hg).1
      have htail : gs.flatten ++ [c] = before ++ t :: behind := (List.cons.inj hg).2
      rcases List.eq_nil_or_concat behind with rfl | ⟨behind, d, rfl⟩
      · obtain ⟨rfl, hlast⟩ := List.append_inj' htail rfl
        obtain rfl := List.singleton_inj.mp hlast
        refine ⟨fun ht => ?_, fun ht => ⟨[], o, gs.flatten, rfl, ?_, gs, hgs, rfl⟩⟩
        · exact absurd (ht.symm.trans hc) (openerText_ne_closerText _ _)
        · rw [ho, closerText_inj (hc.symm.trans ht)]
      · rw [List.concat_eq_append, ← List.cons_append, ← List.append_assoc] at htail
        obtain ⟨hflat, hlast⟩ := List.append_inj' htail rfl
        obtain ⟨g, hmem, before', as, rest, behind', hsplit, rfl, rfl⟩ := exists_of_flatten_eq hflat
        obtain ⟨hopener, hcloser⟩ := ih g hmem hsplit
        refine ⟨fun ht => ?_, fun ht => ?_⟩
        · obtain ⟨inner, c', rest', rfl, hc', hinner⟩ := hopener ht
          exact ⟨inner, c', rest' ++ behind' ++ [d], by simp, hc', hinner⟩
        · obtain ⟨rest', o', inner, rfl, ho', hinner⟩ := hcloser ht
          exact ⟨o :: (before' ++ rest'), o', inner, by simp, ho', hinner⟩

/-- **So is it in nested tokens.** -/
theorem Nested.exists_partner {before behind : List Token} {t : Token}
    (h : Nested (before ++ t :: behind)) (b : Bracket) :
    (t.text = b.openerText →
        ∃ inner c rest, behind = inner ++ c :: rest ∧ c.text = b.closerText ∧ Nested inner)
      ∧ (t.text = b.closerText →
        ∃ rest o inner, before = rest ++ o :: inner ∧ o.text = b.openerText ∧ Nested inner) := by
  obtain ⟨gs, hgs, hflat⟩ := h
  obtain ⟨g, hg, before', as, rest, behind', hsplit, rfl, rfl⟩ := exists_of_flatten_eq hflat
  obtain ⟨hopener, hcloser⟩ := (hgs g hg).exists_partner b hsplit
  refine ⟨fun ht => ?_, fun ht => ?_⟩
  · obtain ⟨inner, c, rest', rfl, hc, hinner⟩ := hopener ht
    exact ⟨inner, c, rest' ++ behind', by simp, hc, hinner⟩
  · obtain ⟨rest', o, inner, rfl, ho, hinner⟩ := hcloser ht
    exact ⟨before' ++ rest', o, inner, by simp, ho, hinner⟩

/-! ## Cuts between groups -/

namespace Nested

variable {ts : List Token} {text : String} {k : Nat}

/-- A plain token in front can be left out. -/
theorem tail {t : Token} (h : Nested (t :: ts)) (ht : t.IsPlain) : Nested ts := by
  obtain ⟨gs, hgs, hts⟩ := h
  cases gs with
  | nil => cases hts
  | cons g gs =>
    have hg := hgs g List.mem_cons_self
    obtain ⟨u, us, rfl⟩ := List.exists_cons_of_ne_nil hg.ne_nil
    rw [List.flatten_cons, List.cons_append] at hts
    obtain ⟨rfl, rfl⟩ := List.cons.inj hts
    obtain rfl := hg.eq_singleton ht
    exact Row.nested fun g hg' => hgs g (List.mem_cons_of_mem _ hg')

/-- So can several. -/
theorem dropPlain {n : Nat} (h : Nested ts) (hplain : ∀ t ∈ ts.take n, t.IsPlain) :
    Nested (ts.drop n) := by
  induction n generalizing ts with
  | zero => exact h
  | succ n ih =>
    cases ts with
    | nil => exact h
    | cons t ts =>
      obtain ⟨ht, hts⟩ := List.forall_mem_cons.mp hplain
      exact ih (h.tail ht) hts

/-- **A cut before what stands outside all brackets goes between groups.** -/
theorem exists_cut (h : Nested ts) (hk : findOutside? text 0 ts = some k) :
    ∃ as t bs, ts = as ++ t :: bs ∧ as.length = k ∧ t.text = text ∧ Nested as
      ∧ Nested (t :: bs) := by
  obtain ⟨gs, hgs, rfl⟩ := h
  obtain ⟨as, g, bs, t, us, rfl, rfl, rfl, ht⟩ := hgs.exists_of_findOutside? hk
  refine ⟨as.flatten, t, us ++ bs.flatten, ?_, rfl, ht, hgs.left.nested, hgs.right.nested⟩
  rw [List.flatten_append, List.flatten_cons, List.cons_append]

theorem take (h : Nested ts) (hk : findOutside? text 0 ts = some k) : Nested (ts.take k) := by
  obtain ⟨as, t, bs, rfl, rfl, -, has, -⟩ := h.exists_cut hk
  rwa [List.take_left]

/-- Behind the cut, the text itself can be left out if it is no bracket. -/
theorem drop (h : Nested ts) (hk : findOutside? text 0 ts = some k)
    (ho : ofOpenerText? text = none) (hc : ofCloserText? text = none) :
    Nested (ts.drop (k + 1)) := by
  obtain ⟨as, t, bs, rfl, rfl, ht, -, hbs⟩ := h.exists_cut hk
  rw [← List.drop_drop, List.drop_left]
  exact hbs.tail ⟨ht ▸ ho, ht ▸ hc⟩

/-- **Behind an opening bracket stands its partner**, and what is between them is nested. -/
theorem exists_closer {b : Bracket} {o : Token} (h : Nested (o :: ts))
    (ho : o.text = b.openerText) :
    ∃ inner c rest, ts = inner ++ c :: rest ∧ c.text = b.closerText ∧ Nested inner := by
  obtain ⟨gs, hgs, hts⟩ := h
  cases gs with
  | nil => cases hts
  | cons g gs =>
    rw [List.flatten_cons] at hts
    cases hgs g List.mem_cons_self with
    | token ht =>
      obtain ⟨rfl, -⟩ := List.cons.inj hts
      exact absurd ho (ht.ne_openerText b)
    | @bracketed b' o' c gs' ho' hc hgs' =>
      obtain ⟨rfl, rfl⟩ := List.cons.inj hts
      obtain rfl := openerText_inj (ho'.symm.trans ho)
      exact ⟨gs'.flatten, c, gs.flatten, by simp, hc, Row.nested hgs'⟩

/-- **Before a closing bracket stands its partner**, with nested tokens on either side of it. -/
theorem exists_opener {b : Bracket} {c : Token} (h : Nested (ts ++ [c]))
    (hc : c.text = b.closerText) :
    ∃ before o inner, ts = before ++ o :: inner ∧ o.text = b.openerText ∧ Nested before
      ∧ Nested inner := by
  obtain ⟨gs, hgs, hts⟩ := h
  rcases List.eq_nil_or_concat gs with rfl | ⟨gs, g, rfl⟩
  · simp at hts
  · rw [List.concat_eq_append] at hgs hts
    rw [List.flatten_append, List.flatten_cons, List.flatten_nil, List.append_nil] at hts
    cases hgs g (by simp) with
    | @token t ht =>
      obtain ⟨-, ht'⟩ := List.append_inj' hts rfl
      obtain rfl := List.singleton_inj.mp ht'
      exact absurd hc (ht.ne_closerText b)
    | @bracketed b' o c' gs' ho hc' hgs' =>
      rw [← List.cons_append, ← List.append_assoc] at hts
      obtain ⟨rfl, hlast⟩ := List.append_inj' hts rfl
      obtain rfl := List.singleton_inj.mp hlast
      obtain rfl := closerText_inj (hc'.symm.trans hc)
      exact ⟨gs.flatten, o, gs'.flatten, rfl, ho, hgs.left.nested, Row.nested hgs'⟩

/-- **The segments between separators are nested.** -/
theorem splitOutside (h : Nested ts) (ho : ofOpenerText? text = none)
    (hc : ofCloserText? text = none) :
    Nested (splitOutside text 0 ts).1
      ∧ ∀ s ∈ (ScriptReader.splitOutside text 0 ts).2, Nested s.2 := by
  induction hn : ts.length using Nat.strongRecOn generalizing ts with
  | ind n ih =>
    subst hn
    cases hk : findOutside? text 0 ts with
    | none =>
      rw [splitOutside_of_eq_none hk]
      exact ⟨h, nofun⟩
    | some k =>
      obtain ⟨as, t, bs, rfl, rfl, ht, has, hbs⟩ := h.exists_cut hk
      have hlt : bs.length < (as ++ t :: bs).length := by
        simp only [List.length_append, List.length_cons]
        omega
      obtain ⟨hfirst, hothers⟩ := ih _ hlt (hbs.tail ⟨ht ▸ ho, ht ▸ hc⟩) rfl
      rw [splitOutside_append_cons hk]
      exact ⟨has, List.forall_mem_cons.mpr ⟨hfirst, hothers⟩⟩

end Nested

/-! ## Phrases of nested tokens -/

namespace Phrase

variable {p q : Phrase}

theorem nested_of_mem_segments {separator : String} (h : Nested p.tokens)
    (ho : ofOpenerText? separator = none) (hc : ofCloserText? separator = none)
    (hq : q ∈ p.segments separator) : Nested q.tokens := by
  obtain ⟨hfirst, hothers⟩ := h.splitOutside ho hc
  unfold segments at hq
  split at hq
  · cases hq
  · have hmem := List.mem_map_of_mem (f := tokens) hq
    rw [tokens_ofSeparated, List.mem_cons] at hmem
    rcases hmem with hmem | hmem
    · exact hmem ▸ hfirst
    · obtain ⟨s, hs, hsnd⟩ := List.mem_map.mp hmem
      exact hsnd ▸ hothers s hs

/-- **Whether nested tokens are enclosed can be told**, and what the brackets enclose is nested. -/
theorem exists_isEnclosed (b : Bracket) (h : Nested p.tokens) :
    p.isEnclosed b = .ok false ∨ p.isEnclosed b = .ok true ∧ Nested (p.trim 1).tokens := by
  obtain ⟨gs, hgs, hp⟩ := h
  by_cases hone : ∃ g, gs = [g]
  · obtain ⟨g, rfl⟩ := hone
    rw [List.flatten_cons, List.flatten_nil, List.append_nil] at hp
    cases hgs g List.mem_cons_self with
    | token ht => exact .inl (isEnclosed_of_token b hp.symm ht)
    | @bracketed b' o c gs' ho hc hgs' =>
      by_cases hb : b' = b
      · subst hb
        refine .inr ⟨isEnclosed_of_bracketed b' hp.symm ho hc ⟨gs', hgs', rfl⟩, ?_⟩
        rw [tokens_trim_of_bracketed hp.symm]
        exact Row.nested hgs'
      · exact .inl (isEnclosed_of_ne hp.symm ho hb)
  · exact .inl (isEnclosed_of_row b hp.symm hgs (not_exists.mp hone))

/-- The parentheses around nested tokens can be taken off. -/
theorem exists_unwrap (h : Nested p.tokens) : ∃ q, p.unwrap = .ok q ∧ Nested q.tokens := by
  induction hn : p.size using Nat.strongRecOn generalizing p with
  | ind n ih =>
    subst hn
    rcases exists_isEnclosed .round h with hno | ⟨hyes, htrim⟩
    · exact ⟨p, Expr.unwrap_of_not_enclosed hno, h⟩
    · have hlt := size_trim_lt (n := 1) (by decide) (p.size_pos_of_isEnclosed hyes)
      obtain ⟨q, hq, hqn⟩ := ih _ hlt htrim rfl
      exact ⟨q, (Expr.unwrap_of_enclosed hyes).trans hq, hqn⟩

/-! ## Divisions of nested tokens -/

/-- **The items of a row are its groups.** -/
theorem items_eq {gs : List (List Token)} (hp : p.tokens = gs.flatten) (h : Row gs) :
    p.items = .ok (itemsFrom 0 none gs) := by
  rw [items, hp, groupsFrom_flatten p 0 h]
  rfl

/-- Where nested tokens are divided can be told. -/
theorem exists_lowest (h : Nested p.tokens) : ∃ d?, p.lowest = .ok d? := by
  obtain ⟨gs, hgs, hp⟩ := h
  exact ⟨_, by rw [lowest, items_eq hp.symm hgs]; rfl⟩

/-- **Nested tokens are divided between their groups.** -/
theorem IsDividedAt.row {as bs : List (List Token)} {g : List Token} {op : Operator} {rank : Rank}
    (hat : p.IsDividedAt as g bs op rank) (h : Nested p.tokens) : Row (as ++ g :: bs) := by
  obtain ⟨gs, hgs, hp⟩ := h
  have hgroups := hat.groups
  rw [← hp, groupsFrom_flatten p 0 hgs] at hgroups
  exact Except.ok.inj hgroups ▸ hgs

/-- **Both parts of a division are nested.** -/
theorem nested_of_lowest {d : Division} (h : Nested p.tokens) (hd : p.lowest = .ok (some d)) :
    Nested d.left.tokens ∧ Nested d.right.tokens := by
  obtain ⟨as, g, bs, op, rank, hat, rfl⟩ := exists_isDividedAt_of_lowest hd
  have hp := hat.tokens_eq
  have hrow := hat.row h
  have hleft : Nested as.flatten := hrow.left.nested
  have hright : Nested (g ++ bs.flatten) := hrow.right.nested
  refine ⟨by rwa [divide, tokens_take_of_append hp], ?_⟩
  cases hrow g (by simp) with
  | @token t ht =>
    have hbehind : (p.drop (as.flatten.length + 1)).tokens = bs.flatten := tokens_drop_of_cons hp
    obtain ⟨rank', hranked⟩ := ranked?_of_roleOf ht.opener hat.role
    rw [divide_of_ranked hranked, hbehind]
    exact hright.tail ht
  | @bracketed b o c inner ho hc hinner =>
    have hbehind : (p.drop as.flatten.length).tokens
        = o :: (inner.flatten ++ [c]) ++ bs.flatten := tokens_drop_of_append hp
    rcases roleOf_isBracketed ⟨o, c, _, rfl, ho, hc⟩ hat.role with rfl | ⟨rfl, hop⟩ | hop
    · simp only [divide, reduceCtorEq, or_self, or_false, if_false, if_true, hbehind]
      exact hright
    · have hp' : p.tokens = as.flatten ++ o :: (inner.flatten ++ c :: bs.flatten) := by
        rw [hp]
        simp
      have hlast : as.flatten.length + (o :: (inner.flatten ++ [c])).length - 1
          = as.flatten.length + inner.flatten.length + 1 := by
        simp only [List.length_cons, List.length_append, List.length_nil]
        omega
      simp only [divide, hop, if_true, hlast, tokens_slice_of_bracketed hp']
      exact Row.nested hinner
    · rcases hop with rfl | rfl
      · simp only [divide, reduceCtorEq, or_self, or_false, or_true, if_false, if_true, hbehind]
        exact hright
      · simp only [divide, reduceCtorEq, or_self, or_true, if_false, if_true, hbehind]
        exact hright

end Phrase

end ScriptReader

import ScriptReader.Expr.Item

/-!
# Proofs/Phrase/Nesting — properly nested brackets are passed over as a whole

A `Group` is a token that is no bracket, or a bracket with its partner and the groups between them;
a `Row` is a list of groups.  Both ways of counting brackets pass over groups: counting one kind
passes over a group in either direction (`Group.skips`), and the depth after a group is the depth
before it (`Group.passes`); what stands in brackets is hidden (`Hides`).  So a row falls apart into
its own groups (`groupsFrom_flatten`), and it is enclosed in brackets exactly if it is one bracketed
group (`isEnclosed_of_bracketed`, `isEnclosed_of_row`).
-/

namespace ScriptReader

/-! ## Brackets by their texts -/

namespace Bracket

@[simp] theorem ofOpenerText?_openerText (b : Bracket) :
    ofOpenerText? b.openerText = some b := by cases b <;> rfl

@[simp] theorem ofCloserText?_closerText (b : Bracket) :
    ofCloserText? b.closerText = some b := by cases b <;> rfl

@[simp] theorem ofOpenerText?_closerText (b : Bracket) :
    ofOpenerText? b.closerText = none := by cases b <;> rfl

theorem openerText_inj {b b' : Bracket} (h : b.openerText = b'.openerText) : b = b' := by
  have := congrArg ofOpenerText? h
  rwa [ofOpenerText?_openerText, ofOpenerText?_openerText, Option.some.injEq] at this

theorem closerText_inj {b b' : Bracket} (h : b.closerText = b'.closerText) : b = b' := by
  have := congrArg ofCloserText? h
  rwa [ofCloserText?_closerText, ofCloserText?_closerText, Option.some.injEq] at this

theorem openerText_ne_closerText (b b' : Bracket) : b.openerText ≠ b'.closerText := fun h => by
  have := congrArg ofOpenerText? h
  rw [ofOpenerText?_openerText, ofOpenerText?_closerText] at this
  cases this

end Bracket

open ScriptReader.Bracket

/-- The token is no bracket. -/
structure Token.IsPlain (t : Token) : Prop where
  opener : ofOpenerText? t.text = none
  closer : ofCloserText? t.text = none

theorem Token.IsPlain.ne_openerText {t : Token} (h : t.IsPlain) (b : Bracket) :
    t.text ≠ b.openerText := fun ht => by
  have := h.opener
  rw [ht, ofOpenerText?_openerText] at this
  cases this

theorem Token.IsPlain.ne_closerText {t : Token} (h : t.IsPlain) (b : Bracket) :
    t.text ≠ b.closerText := fun ht => by
  have := h.closer
  rw [ht, ofCloserText?_closerText] at this
  cases this

@[simp] theorem depthAfter_openerText (depth : Nat) (b : Bracket) :
    depthAfter depth b.openerText = depth + 1 := by
  rw [depthAfter, ofOpenerText?_openerText]; rfl

@[simp] theorem depthAfter_closerText (depth : Nat) (b : Bracket) :
    depthAfter depth b.closerText = depth - 1 := by
  rw [depthAfter, ofOpenerText?_closerText, ofCloserText?_closerText]; rfl

theorem depthAfter_of_isPlain {t : Token} (h : t.IsPlain) (depth : Nat) :
    depthAfter depth t.text = depth := by
  rw [depthAfter, h.opener, h.closer]; rfl

/-! ## Groups -/

/-- A token that is no bracket, or what brackets hold together. -/
inductive Group : List Token → Prop
  | token {t : Token} (h : t.IsPlain) : Group [t]
  | bracketed (b : Bracket) {o c : Token} {gs : List (List Token)} (ho : o.text = b.openerText)
      (hc : c.text = b.closerText) (hgs : ∀ g ∈ gs, Group g) : Group (o :: (gs.flatten ++ [c]))

/-- Groups one after another. -/
def Row (gs : List (List Token)) : Prop := ∀ g ∈ gs, Group g

/-- The tokens are groups one after another. -/
def Nested (ts : List Token) : Prop := ∃ gs, Row gs ∧ gs.flatten = ts

theorem Group.ne_nil {g : List Token} (h : Group g) : g ≠ [] := by
  cases h <;> simp

theorem Row.append {as bs : List (List Token)} (ha : Row as) (hb : Row bs) : Row (as ++ bs) :=
  fun g hg => (List.mem_append.mp hg).elim (ha g) (hb g)

theorem Row.singleton {g : List Token} (h : Group g) : Row [g] :=
  fun _ hg => List.mem_singleton.mp hg ▸ h

theorem Group.nested {g : List Token} (h : Group g) : Nested g :=
  ⟨[g], Row.singleton h, by simp⟩

theorem Nested.nil : Nested [] := ⟨[], by simp [Row], rfl⟩

theorem Nested.append {as bs : List Token} (ha : Nested as) (hb : Nested bs) :
    Nested (as ++ bs) := by
  obtain ⟨as, ha, rfl⟩ := ha
  obtain ⟨bs, hb, rfl⟩ := hb
  exact ⟨as ++ bs, ha.append hb, List.flatten_append⟩

theorem Nested.cons {t : Token} {ts : List Token} (ht : t.IsPlain) (hts : Nested ts) :
    Nested (t :: ts) := (Group.token ht).nested.append hts

theorem Nested.bracketed (b : Bracket) {o c : Token} {ts : List Token}
    (ho : o.text = b.openerText) (hc : c.text = b.closerText) (h : Nested ts) :
    Group (o :: (ts ++ [c])) := by
  obtain ⟨gs, hgs, rfl⟩ := h
  exact .bracketed b ho hc hgs

/-! ## Counting one kind of bracket -/

/-- Where a bracket of this kind is open already, its partner is not among the tokens. -/
def Skips (own other : String) (ts : List Token) : Prop :=
  ∀ level rest, 1 ≤ level →
    partner? own other level (ts ++ rest) = (partner? own other level rest).map (· + ts.length)

variable {own other : String}

theorem Skips.nil : Skips own other [] := fun level rest _ => by simp

theorem Skips.append {as bs : List Token} (ha : Skips own other as) (hb : Skips own other bs) :
    Skips own other (as ++ bs) := fun level rest hl => by
  rw [List.append_assoc, ha level _ hl, hb level _ hl, Option.map_map, List.length_append]
  refine congrArg (Option.map · _) (funext fun n => ?_)
  simp only [Function.comp_apply]
  omega

theorem Skips.flatten {gs : List (List Token)} (h : ∀ g ∈ gs, Skips own other g) :
    Skips own other gs.flatten := by
  induction gs with
  | nil => exact .nil
  | cons g gs ih =>
    rw [List.flatten_cons]
    exact (h g List.mem_cons_self).append (ih fun g hg => h g (List.mem_cons_of_mem _ hg))

theorem Skips.token {t : Token} (ho : t.text ≠ own) (hc : t.text ≠ other) :
    Skips own other [t] := fun level rest _ => by
  rw [List.singleton_append, partner?, if_neg ho, if_neg hc, List.length_singleton]

theorem Skips.bracketed {o c : Token} {ts : List Token} (ho : o.text = own) (hc : c.text = other)
    (hne : own ≠ other) (h : Skips own other ts) : Skips own other (o :: (ts ++ [c])) :=
  fun level rest hl => by
    rw [List.cons_append, List.append_assoc, partner?, if_pos ho, h _ _ (by omega),
      List.singleton_append, partner?, if_neg (by rw [hc]; exact hne.symm), if_pos hc,
      if_neg (by omega), Nat.add_sub_cancel, Option.map_map, Option.map_map]
    refine congrArg (Option.map · _) (funext fun n => ?_)
    simp only [Function.comp_apply, List.length_cons, List.length_append, List.length_nil]
    omega

/-- **Brackets of one kind balance in a group, counted from either side.** -/
theorem Group.skips {g : List Token} (h : Group g) (b : Bracket) :
    Skips b.openerText b.closerText g ∧ Skips b.closerText b.openerText g.reverse := by
  induction h with
  | token h =>
    rw [List.reverse_singleton]
    exact ⟨.token (h.ne_openerText b) (h.ne_closerText b),
      .token (h.ne_closerText b) (h.ne_openerText b)⟩
  | @bracketed b' o c gs ho hc _ ih =>
    have hr : (o :: (gs.flatten ++ [c])).reverse
        = c :: ((gs.map List.reverse).reverse.flatten ++ [o]) := by
      simp [List.reverse_flatten]
    have hf : Skips b.openerText b.closerText gs.flatten := .flatten fun g hg => (ih g hg).1
    have hb : Skips b.closerText b.openerText (gs.map List.reverse).reverse.flatten :=
      .flatten fun g hg => by
        obtain ⟨g', hg', rfl⟩ := List.mem_map.mp (List.mem_reverse.mp hg)
        exact (ih g' hg').2
    rw [hr]
    by_cases hbb : b' = b
    · subst hbb
      exact ⟨.bracketed ho hc (openerText_ne_closerText _ _) hf,
        .bracketed hc ho (openerText_ne_closerText _ _).symm hb⟩
    · -- brackets of another kind are tokens like any other
      have hoo : o.text ≠ b.openerText := fun h => hbb (openerText_inj (ho ▸ h))
      have hcc : c.text ≠ b.closerText := fun h => hbb (closerText_inj (hc ▸ h))
      have hoc : o.text ≠ b.closerText := ho ▸ openerText_ne_closerText _ _
      have hco : c.text ≠ b.openerText := hc ▸ (openerText_ne_closerText _ _).symm
      exact ⟨(Skips.token hoo hoc).append (hf.append (.token hco hcc)),
        (Skips.token hcc hco).append (hb.append (.token hoc hoo))⟩

theorem Nested.skips {ts : List Token} (h : Nested ts) (b : Bracket) :
    Skips b.openerText b.closerText ts := by
  obtain ⟨gs, hgs, rfl⟩ := h
  exact .flatten fun g hg => ((hgs g hg).skips b).1

theorem Nested.skips_reverse {ts : List Token} (h : Nested ts) (b : Bracket) :
    Skips b.closerText b.openerText ts.reverse := by
  obtain ⟨gs, hgs, rfl⟩ := h
  rw [List.reverse_flatten]
  refine .flatten fun g hg => ?_
  obtain ⟨g', hg', rfl⟩ := List.mem_map.mp (List.mem_reverse.mp hg)
  exact ((hgs g' hg').skips b).2

/-- **The partner of an opening bracket is behind what is nested.** -/
theorem partner?_opener (b : Bracket) {o c : Token} {ts rest : List Token}
    (ho : o.text = b.openerText) (hc : c.text = b.closerText) (h : Nested ts) :
    partner? b.openerText b.closerText 0 (o :: (ts ++ c :: rest)) = some (ts.length + 1) := by
  rw [partner?, if_pos ho, h.skips b 1 _ (Nat.le_refl 1), partner?,
    if_neg (by rw [hc]; exact (openerText_ne_closerText _ _).symm), if_pos hc,
    if_pos (Nat.le_refl 1)]
  simp

/-- The same from the closing bracket, to the left. -/
theorem partner?_closer (b : Bracket) {o c : Token} {ts rest : List Token}
    (ho : o.text = b.openerText) (hc : c.text = b.closerText) (h : Nested ts) :
    partner? b.closerText b.openerText 0 (c :: (ts.reverse ++ o :: rest))
      = some (ts.length + 1) := by
  rw [partner?, if_pos hc, h.skips_reverse b 1 _ (Nat.le_refl 1), partner?,
    if_neg (by rw [ho]; exact openerText_ne_closerText _ _), if_pos ho, if_pos (Nat.le_refl 1)]
  simp

/-! ## Counting depth -/

/-- Where some bracket is open already, none of the tokens stands outside all brackets, and as many
are open behind them. -/
def Passes (text : String) (ts : List Token) : Prop :=
  ∀ depth rest, findOutside? text (depth + 1) (ts ++ rest)
    = (findOutside? text (depth + 1) rest).map (· + ts.length)

variable {text : String}

theorem map_add_add (x : Option Nat) (m n : Nat) :
    (x.map (· + m)).map (· + n) = x.map (· + (m + n)) := by
  rw [Option.map_map]
  exact congrArg (Option.map · x) (funext fun k => by simp only [Function.comp_apply]; omega)

theorem Passes.append {as bs : List Token} (ha : Passes text as) (hb : Passes text bs) :
    Passes text (as ++ bs) := fun depth rest => by
  rw [List.append_assoc, ha, hb, map_add_add, List.length_append, Nat.add_comm]

theorem Passes.flatten {gs : List (List Token)} (h : ∀ g ∈ gs, Passes text g) :
    Passes text gs.flatten := by
  induction gs with
  | nil => exact fun depth rest => by simp
  | cons g gs ih =>
    rw [List.flatten_cons]
    exact (h g List.mem_cons_self).append (ih fun g hg => h g (List.mem_cons_of_mem _ hg))

theorem Group.passes {g : List Token} (h : Group g) : Passes text g := by
  induction h with
  | token h =>
    intro depth rest
    rw [List.singleton_append, findOutside?, if_neg (by omega), depthAfter_of_isPlain h,
      List.length_singleton]
  | @bracketed b o c gs ho hc _ ih =>
    intro depth rest
    rw [List.cons_append, List.append_assoc, findOutside?, if_neg (by omega), ho,
      depthAfter_openerText, Passes.flatten ih, List.singleton_append, findOutside?,
      if_neg (by omega), hc, depthAfter_closerText, Nat.add_sub_cancel, map_add_add, map_add_add]
    simp only [List.length_cons, List.length_append, List.length_nil]
    exact congrArg (fun n => Option.map (· + n) _) (by omega)

theorem Nested.passes {ts : List Token} (h : Nested ts) : Passes text ts := by
  obtain ⟨gs, hgs, rfl⟩ := h
  exact .flatten fun g hg => (hgs g hg).passes

/-! ## What stands outside all brackets -/

/-- What brackets hold together is not outside them. -/
theorem findOutside?_bracketed_append (b : Bracket) {o c : Token} {ts : List Token}
    (ho : o.text = b.openerText) (hc : c.text = b.closerText) (h : Nested ts)
    (hne : o.text ≠ text) (rest : List Token) :
    findOutside? text 0 (o :: (ts ++ [c]) ++ rest)
      = (findOutside? text 0 rest).map (· + (o :: (ts ++ [c])).length) := by
  rw [List.cons_append, List.append_assoc, findOutside?, if_neg (fun ht => hne ht.2), ho,
    depthAfter_openerText, h.passes, List.singleton_append, findOutside?, if_neg (by omega), hc,
    depthAfter_closerText, Nat.add_sub_cancel, map_add_add, map_add_add]
  simp only [List.length_cons, List.length_append, List.length_nil]
  exact congrArg (fun n : Nat => Option.map (· + n) (findOutside? text 0 rest)) (by omega)

/-- **Outside a row, the first place of a text is the first in one of its halves.** -/
theorem Nested.findOutside?_append {as : List Token} (h : Nested as) (bs : List Token) :
    findOutside? text 0 (as ++ bs)
      = (findOutside? text 0 as).or ((findOutside? text 0 bs).map (· + as.length)) := by
  obtain ⟨gs, hgs, rfl⟩ := h
  induction gs with
  | nil => simp [findOutside?]
  | cons g gs ih =>
    have ih := ih fun g hg => hgs g (List.mem_cons_of_mem _ hg)
    rw [List.flatten_cons, List.append_assoc, List.length_append, Nat.add_comm g.length]
    cases hgs g List.mem_cons_self with
    | @token t ht =>
      rw [List.singleton_append, List.singleton_append, findOutside?, findOutside?]
      by_cases heq : t.text = text
      · rw [if_pos ⟨rfl, heq⟩, if_pos ⟨rfl, heq⟩, Option.some_or]
      · rw [if_neg (fun h => heq h.2), if_neg (fun h => heq h.2), depthAfter_of_isPlain ht, ih,
          Option.map_or, map_add_add, List.length_singleton]
    | @bracketed b o c gs' ho hc hgs' =>
      by_cases heq : o.text = text
      · rw [List.cons_append, List.cons_append, findOutside?, findOutside?, if_pos ⟨rfl, heq⟩,
          if_pos ⟨rfl, heq⟩, Option.some_or]
      · have hin := findOutside?_bracketed_append b ho hc ⟨gs', hgs', rfl⟩ heq
        rw [hin, hin, ih, Option.map_or, map_add_add]

/-- **The tokens hide a text**: they are nested, and it does not stand outside their brackets. -/
structure Hides (text : String) (ts : List Token) : Prop where
  nested : Nested ts
  free : findOutside? text 0 ts = none

namespace Hides

variable {as bs : List Token} {t : Token}

theorem nil : Hides text [] := ⟨.nil, rfl⟩

theorem append (ha : Hides text as) (hb : Hides text bs) : Hides text (as ++ bs) where
  nested := ha.nested.append hb.nested
  free := by
    rw [ha.nested.findOutside?_append, ha.free, hb.free]
    rfl

theorem token (ht : t.IsPlain) (hne : t.text ≠ text) : Hides text [t] where
  nested := (Group.token ht).nested
  free := by
    rw [findOutside?, if_neg (fun h => hne h.2), findOutside?]
    rfl

theorem cons (h : Hides text bs) (ht : t.IsPlain) (hne : t.text ≠ text) : Hides text (t :: bs) :=
  (token ht hne).append h

/-- Brackets hide all but themselves. -/
theorem bracketed (b : Bracket) {o c : Token} {ts : List Token} (ho : o.text = b.openerText)
    (hc : c.text = b.closerText) (h : Nested ts) (hne : b.openerText ≠ text) :
    Hides text (o :: (ts ++ [c])) where
  nested := (Nested.bracketed b ho hc h).nested
  free := by
    have hfind := findOutside?_bracketed_append b ho hc h (ho ▸ hne) []
    rwa [List.append_nil, findOutside?, Option.map_none] at hfind

/-- **Right behind what hides it, the text is found.** -/
theorem findOutside?_append_cons (h : Hides text as) (ht : t.text = text) :
    findOutside? text 0 (as ++ t :: bs) = some as.length := by
  rw [h.nested.findOutside?_append, h.free, findOutside?, if_pos ⟨rfl, ht⟩]
  simp

end Hides

/-! ## Groups, found again -/

/-- **A row falls apart into its groups.** -/
theorem groupsFrom_flatten (p : Phrase) (pos : Nat) {gs : List (List Token)} (h : Row gs) :
    p.groupsFrom pos gs.flatten = .ok gs := by
  induction gs generalizing pos with
  | nil => rw [List.flatten_nil, Phrase.groupsFrom]
  | cons g gs ih =>
    have ih := fun pos => ih pos fun g hg => h g (List.mem_cons_of_mem _ hg)
    rw [List.flatten_cons]
    cases h g List.mem_cons_self with
    | @token t ht =>
      rw [List.singleton_append, Phrase.groupsFrom]
      simp only [ht.opener, ih]
      rfl
    | @bracketed b o c gs' ho hc hgs' =>
      have hk : partner? b.openerText b.closerText 0 (o :: (gs'.flatten ++ c :: gs.flatten))
          = some (gs'.flatten.length + 1) := partner?_opener b ho hc ⟨gs', hgs', rfl⟩
      have htake : (gs'.flatten ++ c :: gs.flatten).take (gs'.flatten.length + 1)
          = gs'.flatten ++ [c] := by
        rw [List.take_append, List.take_of_length_le (by omega), Nat.add_sub_cancel_left]
        rfl
      have hdrop : (gs'.flatten ++ c :: gs.flatten).drop (gs'.flatten.length + 1)
          = gs.flatten := by
        rw [List.drop_append, List.drop_of_length_le (by omega), Nat.add_sub_cancel_left]
        rfl
      rw [List.cons_append, List.append_assoc, List.singleton_append, Phrase.groupsFrom]
      simp only [ho, ofOpenerText?_openerText, hk, htake, hdrop, ih]
      rfl

namespace Phrase

variable {p : Phrase}

/-- The bracket at a position is closed behind what is nested. -/
theorem closerOf_eq (pos : Nat) (b : Bracket) {o c : Token} {ts rest : List Token}
    (hp : p.tokens.drop pos = o :: (ts ++ c :: rest)) (ho : o.text = b.openerText)
    (hc : c.text = b.closerText) (h : Nested ts) :
    p.closerOf pos = .ok (pos + (ts.length + 1)) := by
  have htext : p.textAt pos = b.openerText := by
    rw [textAt, ← Nat.add_zero pos, ← List.getElem?_drop, hp, List.getElem?_cons_zero,
      Option.map_some, Option.getD_some, ho]
  rw [closerOf, htext, ofOpenerText?_openerText]
  simp only [hp, partner?_opener b ho hc h]

/-- The bracket behind what is nested is opened before it. -/
theorem openerOf_eq (b : Bracket) {o c : Token} {as ts bs : List Token}
    (hp : p.tokens = as ++ o :: (ts ++ c :: bs)) (ho : o.text = b.openerText)
    (hc : c.text = b.closerText) (h : Nested ts) :
    p.openerOf (as.length + ts.length + 1) = .ok as.length := by
  have hlen : as.length + ts.length + 1 = (as ++ o :: ts).length := by
    simp only [List.length_append, List.length_cons]
    omega
  have hsplit : p.tokens = (as ++ o :: ts) ++ c :: bs := by rw [hp]; simp
  have htext : p.textAt (as.length + ts.length + 1) = b.closerText := by
    rw [textAt, hsplit, hlen, List.getElem?_append_right (Nat.le_refl _), Nat.sub_self]
    exact hc
  have htake : (p.tokens.take (as.length + ts.length + 1 + 1)).reverse
      = c :: (ts.reverse ++ o :: as.reverse) := by
    have hall : p.tokens = (as ++ o :: (ts ++ [c])) ++ bs := by rw [hp]; simp
    have hcount : as.length + ts.length + 1 + 1 = (as ++ o :: (ts ++ [c])).length := by
      simp only [List.length_append, List.length_cons, List.length_nil]
      omega
    rw [hall, hcount, List.take_left]
    simp
  rw [openerOf, htext, ofCloserText?_closerText]
  simp only [htake, partner?_closer b ho hc h]
  exact congrArg Except.ok (by omega)

/-- **One bracketed group is enclosed.** -/
theorem isEnclosed_of_bracketed (b : Bracket) {o c : Token} {ts : List Token}
    (hp : p.tokens = o :: (ts ++ [c])) (ho : o.text = b.openerText) (hc : c.text = b.closerText)
    (h : Nested ts) : p.isEnclosed b = .ok true := by
  have hstart : p.startsWith b.openerText = true := by
    rw [startsWith, hasText, hp, List.getElem?_cons_zero, Option.map_some, ho]
    exact beq_self_eq_true _
  rw [isEnclosed, if_pos hstart, closerOf_eq 0 b hp ho hc h]
  refine congrArg Except.ok ?_
  rw [size, hp]
  simp

/-- **A row of several groups is not enclosed**, nor is an empty one. -/
theorem isEnclosed_of_row (b : Bracket) {gs : List (List Token)} (hp : p.tokens = gs.flatten)
    (h : Row gs) (hne : ∀ g, gs ≠ [g]) : p.isEnclosed b = .ok false := by
  rw [isEnclosed]
  split
  · next hstart =>
    cases gs with
    | nil => simp [startsWith, hasText, hp] at hstart
    | cons g gs =>
      cases h g List.mem_cons_self with
      | @token t ht =>
        rw [startsWith, hasText, hp, List.flatten_cons, List.singleton_append,
          List.getElem?_cons_zero, Option.map_some, beq_iff_eq, Option.some.injEq] at hstart
        exact absurd hstart (ht.ne_openerText b)
      | @bracketed b' o c gs' ho hc hgs' =>
        have htokens : p.tokens = o :: (gs'.flatten ++ c :: gs.flatten) := by
          rw [hp, List.flatten_cons, List.cons_append, List.append_assoc]; rfl
        rw [closerOf_eq 0 b' htokens ho hc ⟨gs', hgs', rfl⟩]
        refine congrArg Except.ok (beq_eq_false_iff_ne.mpr ?_)
        -- a second group has tokens of its own, behind the first one's closing bracket
        have hpos : 0 < gs.flatten.length := by
          cases gs with
          | nil => exact absurd rfl (hne _)
          | cons g' gs =>
            have := List.length_pos_iff.mpr (h g' (by simp)).ne_nil
            rw [List.flatten_cons, List.length_append]
            omega
        rw [size, htokens]
        simp only [List.length_cons, List.length_append]
        omega
  · rfl

/-- A single token is not enclosed. -/
theorem isEnclosed_of_token (b : Bracket) {t : Token} (hp : p.tokens = [t]) (ht : t.IsPlain) :
    p.isEnclosed b = .ok false := by
  rw [isEnclosed, if_neg]
  rw [startsWith, hasText, hp, List.getElem?_cons_zero, Option.map_some, beq_iff_eq,
    Option.some.injEq]
  exact ht.ne_openerText b

/-- One group in brackets of another kind is not enclosed in these. -/
theorem isEnclosed_of_ne {b b' : Bracket} {o : Token} {ts : List Token} (hp : p.tokens = o :: ts)
    (ho : o.text = b'.openerText) (hne : b' ≠ b) : p.isEnclosed b = .ok false := by
  rw [isEnclosed, if_neg]
  rw [startsWith, hasText, hp, List.getElem?_cons_zero, Option.map_some, beq_iff_eq,
    Option.some.injEq, ho]
  exact fun h => hne (openerText_inj h)

end Phrase

end ScriptReader

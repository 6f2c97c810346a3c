import ScriptReader.Proofs.Expr.RoundTrip
import ScriptReader.Proofs.Literal.Spelled

/-!
# Proofs/Expr/Writable — every expression has a writing, and any writing reads back

`Expr.Writable` is the fragment of expressions that source code can write: names that are words,
whole numbers, texts, containers, signs, operators of the table, indices, slices of two bounds or
more, and calls with their named arguments first.  `expression_round_trip` says that such an
expression can be written, and that whichever way it is written it is read back.
-/

namespace ScriptReader

/-- **The expressions that can be written.** -/
inductive Expr.Writable : Expr → Prop
  | name {identifier : String} {lookup : Lookup} (h : IsIdentifier identifier) :
      Writable (.name identifier lookup)
  | nothing : Writable .nothing
  | boolean (b : Bool) : Writable (.constant (.boolean b))
  | number (n : Nat) : Writable (.constant (.number (.ofInt n)))
  | text (s : String) : Writable (.text s)
  | array {items : List Expr} (h : ∀ e ∈ items, Writable e) : Writable (.array items)
  | dictionary {entries : List (Expr × Expr)} (hkeys : ∀ x ∈ entries, Writable x.1)
      (hvalues : ∀ x ∈ entries, Writable x.2) : Writable (.dictionary entries)
  | unary {op : Operator} {e : Expr} (hop : isSign op) (h : Writable e) : Writable (.unary op e)
  | binary {op : Operator} {l r : Expr} (hop : op.isInfix) (hl : Writable l) (hr : Writable r) :
      Writable (.binary op l r)
  | index {e key : Expr} (he : Writable e) (hkey : Writable key) : Writable (.binary .index e key)
  | slice {e : Expr} {bounds : List Expr} (he : Writable e) (htwo : 2 ≤ bounds.length)
      (hbounds : ∀ x ∈ bounds, Writable x) : Writable (.binary .slice e (.array bounds))
  | call {callee : Expr} {named : List (String × Expr)} {others : List Expr}
      (hcallee : Writable callee) (hkeys : ∀ x ∈ named, IsIdentifier x.1)
      (hnamed : ∀ x ∈ named, Writable x.2) (hothers : ∀ e ∈ others, Writable e) :
      Writable (.call callee (.dictionary (named.map fun x => (.text x.1, x.2)) :: others))
  | builtIn {function : BuiltIn} {named : List (String × Expr)} {others : List Expr}
      (hkeys : ∀ x ∈ named, IsIdentifier x.1) (hnamed : ∀ x ∈ named, Writable x.2)
      (hothers : ∀ e ∈ others, Writable e) :
      Writable (.builtIn function (.dictionary (named.map fun x => (.text x.1, x.2)) :: others))

/-! ## Tokens to write with -/

theorem exists_encloses (b : Bracket) : ∃ o c, Encloses b o c ∧ o.IsDraft ∧ c.IsDraft := by
  obtain ⟨o, ho, hodraft⟩ := exists_spells b.openerText .operator
    (by cases b <;> rfl) (by cases b <;> decide)
  obtain ⟨c, hc, hcdraft⟩ := exists_spells b.closerText .operator
    (by cases b <;> rfl) (by cases b <;> decide)
  exact ⟨o, c, ⟨ho, hc⟩, hodraft, hcdraft⟩

theorem exists_spells_symbol {op : Operator} (h : op.level < 14) :
    ∃ t : Token, t.Spells op.symbol ∧ t.IsDraft := by
  have hkinds : ∀ op ∈ Operator.all, op.level < 14 →
      ∃ kind ∈ Kind.all, piece? op.symbol.toList = some (.lexeme kind op.symbol.toList, []) := by
    decide
  obtain ⟨kind, -, hkind⟩ := hkinds op op.mem_all h
  exact exists_spells _ _ hkind
    ((by decide : ∀ op ∈ Operator.all, '\n' ∉ op.symbol.toList) op op.mem_all)

/-! ## A writing for every expression -/

/-- The expression can be written with tokens of the first line, at least where anything can. -/
def HasWriting (e : Expr) : Prop := ∃ ts, Written 0 e ts ∧ Drafted ts

/-- In parentheses an expression can stand anywhere, and is more than one token. -/
theorem HasWriting.enclosed {e : Expr} (h : HasWriting e) (k : Nat) :
    ∃ ts, Written k e ts ∧ Drafted ts ∧ 2 ≤ ts.length := by
  obtain ⟨ts, hts, hdraft⟩ := h
  obtain ⟨o, c, hb, ho, hc⟩ := exists_encloses .round
  refine ⟨_, .parentheses hb hts, .bracketed ho hc hdraft, ?_⟩
  simp only [List.length_cons, List.length_append]
  omega

/-- What each of several things has, they have together. -/
theorem exists_map_eq {α β : Type} {f : β → α} {p : β → Prop} {as : List α}
    (h : ∀ a ∈ as, ∃ b, f b = a ∧ p b) : ∃ bs : List β, bs.map f = as ∧ ∀ b ∈ bs, p b := by
  induction as with
  | nil => exact ⟨[], rfl, nofun⟩
  | cons a as ih =>
    obtain ⟨b, rfl, hb⟩ := h a List.mem_cons_self
    obtain ⟨bs, rfl, hbs⟩ := ih fun a ha => h a (List.mem_cons_of_mem _ ha)
    exact ⟨b :: bs, rfl, List.forall_mem_cons.mpr ⟨hb, hbs⟩⟩

theorem exists_items {es : List Expr} (h : ∀ e ∈ es, HasWriting e) :
    ∃ items : List (Expr × List Token), items.map (·.1) = es
      ∧ ∀ x ∈ items, Written 0 x.1 x.2 ∧ Drafted x.2 := by
  refine exists_map_eq fun e he => ?_
  obtain ⟨ts, hts⟩ := h e he
  exact ⟨(e, ts), rfl, hts⟩

theorem exists_entries {entries : List (Expr × Expr)} (hkeys : ∀ x ∈ entries, HasWriting x.1)
    (hvalues : ∀ x ∈ entries, HasWriting x.2) :
    ∃ xs : List WrittenEntry, xs.map (fun x => (x.key, x.value)) = entries
      ∧ ∀ x ∈ xs, Written 0 x.key x.keyTokens ∧ Written 0 x.value x.valueTokens
        ∧ x.colon.Spells ":" ∧ Drafted x.tokens := by
  obtain ⟨colon, hcolon, hdraft⟩ := exists_spells ":" .operator rfl (by decide)
  refine exists_map_eq fun entry hentry => ?_
  obtain ⟨ks, hks, hksdraft⟩ := hkeys entry hentry
  obtain ⟨vs, hvs, hvsdraft⟩ := hvalues entry hentry
  exact ⟨⟨entry.1, ks, colon, entry.2, vs⟩, rfl, hks, hvs, hcolon,
    hksdraft.append (.cons hdraft hvsdraft)⟩

/-- Named arguments are written first, though they might stand anywhere among the others. -/
theorem exists_arguments {named : List (String × Expr)} {others : List Expr}
    (hkeys : ∀ x ∈ named, IsIdentifier x.1) (hnamed : ∀ x ∈ named, HasWriting x.2)
    (hothers : ∀ e ∈ others, HasWriting e) :
    ∃ xs : List WrittenArgument, Expr.arguments xs
        = .dictionary (named.map fun x => (.text x.1, x.2)) :: others
      ∧ ∀ x ∈ xs, Written 0 x.value x.valueTokens ∧ x.IsNamed ∧ Drafted x.tokens := by
  obtain ⟨equals, hequals, hdraft⟩ := exists_spells "=" .operator rfl (by decide)
  induction named with
  | nil =>
    obtain ⟨items, rfl, hwritten⟩ := exists_items hothers
    refine ⟨items.map fun x => ⟨none, x.1, x.2⟩, ?_, ?_⟩
    · have hentries : items.filterMap (WrittenArgument.entry? ∘ fun x => ⟨none, x.1, x.2⟩) = [] :=
        List.filterMap_eq_nil_iff.mpr fun _ _ => rfl
      have hothers : items.filterMap (WrittenArgument.other? ∘ fun x => ⟨none, x.1, x.2⟩)
          = items.map (·.1) := congrFun List.filterMap_eq_map items
      rw [Expr.arguments, List.filterMap_map, List.filterMap_map, hentries, hothers]
      rfl
    · refine List.forall_mem_map.mpr fun x hx => ⟨(hwritten x hx).1, ?_, (hwritten x hx).2⟩
      intro key equals h
      cases h
  | cons x named ih =>
    have hkey := hkeys x List.mem_cons_self
    obtain ⟨ts, hts, htsdraft⟩ := hnamed x List.mem_cons_self
    obtain ⟨xs, hxs, hwritten⟩ := ih (fun x hx => hkeys x (List.mem_cons_of_mem _ hx))
      fun x hx => hnamed x (List.mem_cons_of_mem _ hx)
    rw [Expr.arguments, List.cons.injEq, Expr.dictionary.injEq] at hxs
    refine ⟨⟨some (⟨.identifier, x.1, 1⟩, equals), x.2, ts⟩ :: xs, ?_, ?_⟩
    · rw [Expr.arguments, List.filterMap_cons, List.filterMap_cons, hxs.1, hxs.2]
      rfl
    · refine List.forall_mem_cons.mpr
        ⟨⟨hts, ?_, .cons hkey.isDraft (.cons hdraft htsdraft)⟩, hwritten⟩
      intro key equals' h
      cases h
      exact ⟨⟨hkey, rfl⟩, hequals⟩

/-- Separated segments within brackets. -/
theorem exists_enclosed (b : Bracket) (separator : String) (hs : separator ∈ [",", ":"])
    {segments : List (List Token)} (h : ∀ s ∈ segments, Drafted s) :
    ∃ o c ts, Encloses b o c ∧ Joined separator segments ts ∧ Drafted (o :: (ts ++ [c])) := by
  have hpiece : ∀ separator ∈ [",", ":"],
      piece? separator.toList = some (.lexeme .operator separator.toList, [])
        ∧ '\n' ∉ separator.toList := by decide
  obtain ⟨o, c, hb, ho, hc⟩ := exists_encloses b
  obtain ⟨ts, hts, hdraft⟩ := exists_joined _ (hpiece separator hs).1 (hpiece separator hs).2 h
  exact ⟨o, c, ts, hb, hts, .bracketed ho hc hdraft⟩

/-! ## Containers, operators and calls -/

theorem hasWriting_array {items : List Expr} (h : ∀ e ∈ items, HasWriting e) :
    HasWriting (.array items) := by
  obtain ⟨items, rfl, hwritten⟩ := exists_items h
  obtain ⟨o, c, ts, hb, hts, hdraft⟩ := exists_enclosed .square "," (by decide)
    (List.forall_mem_map.mpr fun x hx => (hwritten x hx).2)
  exact ⟨_, .array (Nat.zero_le _) hb (fun x hx => (hwritten x hx).1) hts, hdraft⟩

theorem hasWriting_dictionary {entries : List (Expr × Expr)}
    (hkeys : ∀ x ∈ entries, HasWriting x.1) (hvalues : ∀ x ∈ entries, HasWriting x.2) :
    HasWriting (.dictionary entries) := by
  obtain ⟨xs, rfl, hwritten⟩ := exists_entries hkeys hvalues
  obtain ⟨o, c, ts, hb, hts, hdraft⟩ := exists_enclosed .curly "," (by decide)
    (List.forall_mem_map.mpr fun x hx => (hwritten x hx).2.2.2)
  exact ⟨_, .dictionary (Nat.zero_le _) hb (fun x hx => (hwritten x hx).1)
    (fun x hx => (hwritten x hx).2.1) (fun x hx => (hwritten x hx).2.2.1) hts, hdraft⟩

/-- Operands stand in parentheses, lest they be looser than their operator. -/
theorem hasWriting_unary {op : Operator} {e : Expr} (hop : Expr.isSign op) (h : HasWriting e) :
    HasWriting (.unary op e) := by
  have hlevel : ∀ op ∈ Operator.all, Expr.isSign op → op.level < 14 := by decide
  obtain ⟨t, ht, htdraft⟩ := exists_spells_symbol (hlevel op op.mem_all hop)
  obtain ⟨ts, hts, hdraft, -⟩ := h.enclosed op.prefixLevel
  exact ⟨_, .unary hop (Nat.zero_le _) ht hts, .cons htdraft hdraft⟩

theorem hasWriting_binary {op : Operator} {l r : Expr} (hop : op.isInfix) (hl : HasWriting l)
    (hr : HasWriting r) : HasWriting (.binary op l r) := by
  obtain ⟨t, ht, htdraft⟩ := exists_spells_symbol (level_lt_of_isInfix hop)
  obtain ⟨ls, hls, hlsdraft, -⟩ := hl.enclosed op.leftLevel
  obtain ⟨rs, hrs, hrsdraft, -⟩ := hr.enclosed op.rightLevel
  exact ⟨_, .binary hop (Nat.zero_le _) ht hls hrs, hlsdraft.append (.cons htdraft hrsdraft)⟩

theorem hasWriting_index {e key : Expr} (he : HasWriting e) (hkey : HasWriting key) :
    HasWriting (.binary .index e key) := by
  obtain ⟨es, hes, hesdraft, -⟩ := he.enclosed Operator.index.level
  obtain ⟨ks, hks, hksdraft⟩ := hkey
  obtain ⟨o, c, hb, ho, hc⟩ := exists_encloses .square
  exact ⟨_, .index (Nat.zero_le _) hes hb hks, hesdraft.append (.bracketed ho hc hksdraft)⟩

theorem hasWriting_slice {e : Expr} {bounds : List Expr} (he : HasWriting e)
    (htwo : 2 ≤ bounds.length) (hbounds : ∀ x ∈ bounds, HasWriting x) :
    HasWriting (.binary .slice e (.array bounds)) := by
  obtain ⟨es, hes, hesdraft, -⟩ := he.enclosed Operator.slice.level
  obtain ⟨items, rfl, hwritten⟩ := exists_items hbounds
  obtain ⟨o, c, ts, hb, hts, hdraft⟩ := exists_enclosed .square ":" (by decide)
    (List.forall_mem_map.mpr fun x hx => (hwritten x hx).2)
  rw [List.length_map] at htwo
  exact ⟨_, .slice (Nat.zero_le _) hes hb htwo (fun x hx => (hwritten x hx).1) hts,
    hesdraft.append hdraft⟩

section Arguments

variable {named : List (String × Expr)} {others : List Expr}
  (hkeys : ∀ x ∈ named, IsIdentifier x.1) (hnamed : ∀ x ∈ named, HasWriting x.2)
  (hothers : ∀ e ∈ others, HasWriting e)
include hkeys hnamed hothers

/-- In parentheses a callee is not taken for a built-in function. -/
theorem hasWriting_call {callee : Expr} (hcallee : HasWriting callee) :
    HasWriting (.call callee (.dictionary (named.map fun x => (.text x.1, x.2)) :: others)) := by
  obtain ⟨fs, hfs, hfsdraft, htwo⟩ := hcallee.enclosed Operator.call.level
  obtain ⟨xs, hxs, hwritten⟩ := exists_arguments hkeys hnamed hothers
  obtain ⟨o, c, ts, hb, hts, hdraft⟩ := exists_enclosed .round "," (by decide)
    (List.forall_mem_map.mpr fun x hx => (hwritten x hx).2.2)
  rw [← hxs]
  refine ⟨_, .call (Nat.zero_le _) hfs ?_ hb (fun x hx => (hwritten x hx).1)
    (fun x hx => (hwritten x hx).2.1) hts, hfsdraft.append hdraft⟩
  rintro t rfl
  exact absurd htwo (by simp)

theorem hasWriting_builtIn (function : BuiltIn) : HasWriting
    (.builtIn function (.dictionary (named.map fun x => (.text x.1, x.2)) :: others)) := by
  obtain ⟨t, ht, htdraft⟩ := exists_spells function.name .identifier
    (by cases function <;> rfl) (by cases function <;> decide)
  obtain ⟨xs, hxs, hwritten⟩ := exists_arguments hkeys hnamed hothers
  obtain ⟨o, c, ts, hb, hts, hdraft⟩ := exists_enclosed .round "," (by decide)
    (List.forall_mem_map.mpr fun x hx => (hwritten x hx).2.2)
  rw [← hxs]
  exact ⟨_, .builtIn (Nat.zero_le _) ht hb (fun x hx => (hwritten x hx).1)
    (fun x hx => (hwritten x hx).2.1) hts, .cons htdraft hdraft⟩

end Arguments

/-! ## Every expression -/

/-- **Every expression of the fragment can be written.** -/
theorem Expr.Writable.hasWriting {e : Expr} (h : e.Writable) : HasWriting e := by
  induction h with
  | @name identifier lookup h =>
    exact ⟨[⟨.identifier, identifier, 1⟩], .name (t := ⟨.identifier, identifier, 1⟩) ⟨h, rfl⟩,
      .singleton h.isDraft⟩
  | nothing =>
    obtain ⟨t, ht, hdraft⟩ := exists_spells "None" .keyword rfl (by decide)
    exact ⟨[t], .nothing ht, .singleton hdraft⟩
  | boolean b =>
    obtain ⟨t, ht, hdraft⟩ := exists_spells (if b then "True" else "False") .keyword
      (by cases b <;> rfl) (by cases b <;> decide)
    exact ⟨[t], .boolean b ht, .singleton hdraft⟩
  | number n =>
    exact ⟨_, .number (Literal.isLexeme_numeral n) rfl (Literal.numberValue?_numeral n),
      .singleton (Literal.isDraft_numeral n)⟩
  | text s =>
    have hwritten : Written 0 _ _ := .text (Literal.isLexeme_literal s)
      (List.mem_cons_of_mem _ List.mem_cons_self)
    rw [Literal.textValue_literal] at hwritten
    exact ⟨_, hwritten, .singleton (Literal.isDraft_literal s)⟩
  | array _ ih => exact hasWriting_array ih
  | dictionary _ _ ihkeys ihvalues => exact hasWriting_dictionary ihkeys ihvalues
  | unary hop _ ih => exact hasWriting_unary hop ih
  | binary hop _ _ ihl ihr => exact hasWriting_binary hop ihl ihr
  | index _ _ ihe ihkey => exact hasWriting_index ihe ihkey
  | slice _ htwo _ ihe ihbounds => exact hasWriting_slice ihe htwo ihbounds
  | call _ hkeys _ _ ihcallee ihnamed ihothers =>
    exact hasWriting_call hkeys ihnamed ihothers ihcallee
  | builtIn hkeys _ _ ihnamed ihothers => exact hasWriting_builtIn hkeys ihnamed ihothers _

/-- **Expressions read back.**  An expression of the fragment can be written; and from whatever
tokens write it, wherever they stand and however its names are to be looked up, it is read back with
each name placed. -/
theorem expression_round_trip (e : Expr) (h : e.Writable) :
    (∃ ts, Written 0 e ts) ∧ ∀ (ts : List Token) (p : Phrase) (lookup : Lookup),
      Written 0 e ts → p.tokens = ts → Expr.read p lookup = .ok (e.placed lookup) :=
  ⟨h.hasWriting.imp fun _ h => h.1, fun _ p lookup hw hp => hw.reads p lookup hp⟩

/-- `a += b * -c`, without parentheses. -/
theorem expression_round_trip_add_product :
    Expr.Writable (.binary .plusAssign (.name "a" .none)
      (.binary .multiply (.name "b" .none) (.unary .minus (.name "c" .none))))
    ∧ Expr.read (.whole [⟨.identifier, "a", 1⟩, ⟨.operator, "+=", 1⟩, ⟨.identifier, "b", 1⟩,
        ⟨.operator, "*", 1⟩, ⟨.operator, "-", 1⟩, ⟨.identifier, "c", 1⟩]) .value
      = .ok (.binary .plusAssign (.name "a" .reference)
        (.binary .multiply (.name "b" .value) (.unary .minus (.name "c" .value)))) := by
  have hw : Expr.Writable (.binary .plusAssign (.name "a" .none)
      (.binary .multiply (.name "b" .none) (.unary .minus (.name "c" .none)))) :=
    .binary rfl (.name (by decide))
      (.binary rfl (.name (by decide)) (.unary rfl (.name (by decide))))
  have hword {k : Nat} (s : String) (h : Token.IsLexeme ⟨.identifier, s, 1⟩) :
      Written k (.name s .none) [⟨.identifier, s, 1⟩] := .name (t := ⟨.identifier, s, 1⟩) ⟨h, rfl⟩
  refine ⟨hw, (expression_round_trip _ hw).2 _ _ .value ?_ rfl⟩
  have hproduct : Written 0
      (.binary .multiply (.name "b" .none) (.unary .minus (.name "c" .none)))
      ([⟨.identifier, "b", 1⟩] ++ ⟨.operator, "*", 1⟩
        :: ⟨.operator, "-", 1⟩ :: [⟨.identifier, "c", 1⟩]) :=
    .binary rfl (by decide) ⟨rfl, rfl⟩ (hword "b" rfl)
      (.unary rfl (by decide) ⟨rfl, rfl⟩ (hword "c" rfl))
  have hsum : Written 0 (.binary .plusAssign (.name "a" .none) _)
      ([⟨.identifier, "a", 1⟩] ++ ⟨.operator, "+=", 1⟩ :: _) :=
    .binary rfl (Nat.le_refl 0) ⟨rfl, rfl⟩ (hword "a" rfl) hproduct
  exact hsum

end ScriptReader

import ScriptReader.Proofs.Expr.Operands
import ScriptReader.Proofs.Expr.Rules

/-!
# Proofs/Expr/RoundTrip — what is written is what is read

A written expression is divided at the operator that puts it together, and each rule of reading
makes of its parts what was written.  `Written.reads` follows by induction on how the expression is
written.
-/

namespace ScriptReader

namespace Expr

variable {p : Phrase} {k : Nat} {o c : Token} {ts : List Token}

/-- What begins with an operand and goes on behind it is not enclosed. -/
theorem isEnclosed_of_append {as bs : List Token} (b : Bracket) (hp : p.tokens = as ++ bs)
    (ha : Nested as) (hb : Nested bs) (hane : as ≠ []) (hbne : bs ≠ []) :
    p.isEnclosed b = .ok false := by
  obtain ⟨as, hra, rfl⟩ := ha
  obtain ⟨bs, hrb, rfl⟩ := hb
  refine Phrase.isEnclosed_of_row b (hp.trans List.flatten_append.symm) (hra.append hrb) ?_
  intro g hg
  rcases List.append_eq_singleton_iff.mp hg with ⟨rfl, -⟩ | ⟨-, rfl⟩
  · exact hane rfl
  · exact hbne rfl

theorem reads_lexeme {t : Token} {e : Expr} (ht : t.IsPlain) (hr : t.ranked? = none)
    (h : ∀ p lookup, ofToken t p lookup = .ok (e.placed lookup)) : Reads [t] e :=
  fun p lookup hp => (read_token hp ht hr).trans (h p lookup)

theorem reads_parentheses {e : Expr} (hb : Encloses .round o c) (hw : WritesOperand k ts)
    (h : Reads ts e) : Reads (o :: (ts ++ [c])) e := fun p lookup hp => by
  rw [read_parentheses hp hb.opener.text_eq hb.closer.text_eq hw.nested hw.ne_nil]
  exact h _ _ (Phrase.tokens_trim_of_bracketed hp)

theorem reads_unary {op : Operator} {e : Expr} {t : Token} (hop : isSign op)
    (ht : t.Spells op.symbol) (hw : WritesOperand op.prefixLevel ts) (h : Reads ts e) :
    Reads (t :: ts) (.unary op e) := fun p lookup hp => by
  obtain ⟨gs, hgs, rfl⟩ := id hw
  have hplain := isPlain_of_spells_symbol ht
  have hne : p.tokens ≠ [] := by rw [hp]; exact List.cons_ne_nil _ _
  have henc : p.isEnclosed .round = .ok false :=
    isEnclosed_of_append .round (hp.trans List.singleton_append.symm) (Group.token hplain).nested
      hw.nested (List.cons_ne_nil _ _) hw.ne_nil
  have hsigns : ∀ op ∈ Operator.all, isSign op →
      endsOperand (some (.operator op (.ofLevel op.prefixLevel))) = false
        ∧ (Rank.ofLevel op.prefixLevel).direction = .rightToLeft
        ∧ op ≠ .index ∧ op ≠ .slice ∧ op ≠ .call ∧ op ≠ .array ∧ op ≠ .dictionary := by decide
  obtain ⟨hends, hrtl, hindex, hslice, hcall, harray, hdict⟩ := hsigns op op.mem_all hop
  have hlowest := lowest_sign hgs hplain (ofToken_sign hop ht) hends hp (Nat.le_refl _) hrtl
    ⟨by simp [hindex, hslice], by simp [hcall, harray, hdict]⟩
  have hleft : (p.take 0).tokens = [] := by rw [Phrase.tokens_take, List.take_zero]
  have hright : (p.drop 1).tokens = gs.flatten := Phrase.tokens_drop_one hp
  rw [read_of_lowest hne henc hlowest, dif_neg harray, dif_neg hdict, dif_neg hcall]
  exact readOperator_unary hop hleft (by rw [hright]; exact hw.ne_nil) (h _ _ hright)

theorem reads_binary {op : Operator} {l r : Expr} {t : Token} {ls rs : List Token}
    (hop : op.isInfix) (ht : t.Spells op.symbol) (hwl : WritesOperand op.leftLevel ls)
    (hwr : WritesOperand op.rightLevel rs) (hl : Reads ls l) (hr : Reads rs r) :
    Reads (ls ++ t :: rs) (.binary op l r) := fun p lookup hp => by
  obtain ⟨as, has, rfl⟩ := id hwl
  obtain ⟨bs, hbs, rfl⟩ := id hwr
  have hplain := isPlain_of_spells_symbol ht
  have hne : p.tokens ≠ [] := by rw [hp]; simp
  have henc : p.isEnclosed .round = .ok false :=
    isEnclosed_of_append .round hp hwl.nested (.cons hplain hwr.nested) hwl.ne_nil
      (List.cons_ne_nil _ _)
  have hinfix : ∀ op ∈ Operator.all, op.isInfix →
      (if (Rank.ofLevel op.level).direction = .rightToLeft
        then op.level < op.leftLevel ∧ op.level ≤ op.rightLevel
        else op.level ≤ op.leftLevel ∧ op.level < op.rightLevel)
      ∧ op ≠ .not ∧ op ≠ .slice ∧ op ≠ .call ∧ op ≠ .array ∧ op ≠ .dictionary := by decide
  obtain ⟨hdir, hnot, hslice, hcall, harray, hdict⟩ := hinfix op op.mem_all hop
  have hlowest := lowest_between has hbs hplain (ranked?_of_spells (level_lt_of_isInfix hop) ht) hp
    hdir
  have hleft : (p.take as.flatten.length).tokens = as.flatten := Phrase.tokens_take_of_append hp
  have hright : (p.drop (as.flatten.length + 1)).tokens = bs.flatten :=
    Phrase.tokens_drop_of_cons hp
  rw [read_of_lowest hne henc hlowest, dif_neg harray, dif_neg hdict, dif_neg hcall]
  exact readOperator_binary (by rw [hleft]; exact hwl.ne_nil) (by rw [hright]; exact hwr.ne_nil)
    hnot hslice (hl _ _ hleft) (hr _ _ hright)

/-! ## Brackets -/

section Suffix

variable {e : Expr} {es : List Token} {lookup : Lookup} (hw : WritesOperand suffixRank.level es)
  (hp : p.tokens = es ++ o :: (ts ++ [c])) (hts : Nested ts)
include hw hp hts

/-- The parts of a phrase that is divided at the brackets at its end. -/
theorem read_suffix {b : Bracket} {op : Operator} (hb : Encloses b o c)
    (hrole : Role.ofGroup b true (o :: (ts ++ [c])) = .operator op suffixRank) :
    p.tokens ≠ [] ∧ p.isEnclosed .round = .ok false
      ∧ p.lowest = .ok (some (p.divide ⟨es.length, ts.length + 2, op, suffixRank⟩)) := by
  obtain ⟨gs, hgs, rfl⟩ := id hw
  refine ⟨by rw [hp]; simp, ?_, ?_⟩
  · exact isEnclosed_of_append .round hp hw.nested
      (Nested.bracketed b hb.opener.text_eq hb.closer.text_eq hts).nested hw.ne_nil
      (List.cons_ne_nil _ _)
  · exact lowest_suffix hgs hb.opener.text_eq hb.closer.text_eq hts hrole hp

end Suffix

theorem tokens_divide_interior {op : Operator} {es : List Token} (rank : Rank)
    (hop : op = .index ∨ op = .slice) (hp : p.tokens = es ++ o :: (ts ++ [c])) :
    (p.divide ⟨es.length, ts.length + 2, op, rank⟩).right.tokens = ts := by
  rw [Phrase.divide, if_pos hop]
  exact Phrase.tokens_slice_of_bracketed hp

theorem reads_index {e key : Expr} {es : List Token} (hb : Encloses .square o c)
    (hw : WritesOperand suffixRank.level es) (hwkey : WritesOperand k ts) (hk : Foreign k ":")
    (he : Reads es e) (hkey : Reads ts key) :
    Reads (es ++ o :: (ts ++ [c])) (.binary .index e key) := fun p lookup hp => by
  obtain ⟨hne, henc, hlowest⟩ :=
    read_suffix hw hp hwkey.nested hb (ofGroup_index (hwkey.hides hk).free)
  have hleft : (p.take es.length).tokens = es := Phrase.tokens_take_of_append hp
  have hright := tokens_divide_interior suffixRank (.inl rfl) hp
  rw [read_of_lowest hne henc hlowest]
  exact readOperator_binary (by rw [Phrase.divide, hleft]; exact hw.ne_nil)
    (by rw [hright]; exact hwkey.ne_nil) nofun nofun
    (he _ _ hleft) (hkey _ _ hright)

theorem reads_slice {e : Expr} {es : List Token} {bounds : List (Expr × List Token)}
    (hb : Encloses .square o c) (hw : WritesOperand suffixRank.level es) (htwo : 2 ≤ bounds.length)
    (hseg : ∀ x ∈ bounds, IsSegment ":" x.2) (hj : Joined ":" (bounds.map (·.2)) ts)
    (he : Reads es e) (hbounds : ∀ x ∈ bounds, Reads x.2 x.1) :
    Reads (es ++ o :: (ts ++ [c])) (.binary .slice e (.array (bounds.map (·.1)))) :=
  fun p lookup hp => by
    have hseg' := List.forall_mem_map.mpr hseg
    have hts : Nested ts := hj.nested_of_isSegment (by decide) hseg'
    have hbne : bounds.map (·.2) ≠ [] := by
      intro h
      rw [List.map_eq_nil_iff.mp h] at htwo
      exact absurd htwo (by decide)
    obtain ⟨hne, henc, hlowest⟩ := read_suffix hw hp hts hb
      (ofGroup_slice (hj.isSome_findOutside? (by rwa [List.length_map]) hseg'))
    have hleft : (p.take es.length).tokens = es := Phrase.tokens_take_of_append hp
    have hright := tokens_divide_interior suffixRank (.inr rfl) hp
    rw [read_of_lowest hne henc hlowest]
    exact readOperator_slice (by rw [Phrase.divide, hleft]; exact hw.ne_nil)
      (by rw [hright]; exact hj.ne_nil hseg' hbne) (he _ _ hleft)
      (readSegments_eq hright hj hseg hbounds)

section Arguments

variable {xs : List WrittenArgument} (hb : Encloses .round o c) (hnamed : ∀ x ∈ xs, x.IsNamed)
  (hws : ∀ x ∈ xs, WritesOperand 0 x.valueTokens) (hj : Joined "," (xs.map (·.tokens)) ts)
  (hxs : ∀ x ∈ xs, Reads x.valueTokens x.value)
include hb hnamed hws hj hxs

/-- The parentheses of a call enclose its arguments, which are read in order. -/
theorem read_arguments {n : Nat} {h : ∀ q ∈ (p.trim 1).segments ",", q.size < n}
    (hp : p.tokens = o :: (ts ++ [c])) :
    p.isEnclosed .round = .ok true ∧ readArguments (reading n) ((p.trim 1).segments ",") h
      = .ok (placedEntries (xs.filterMap WrittenArgument.entry?),
        placedAll (xs.filterMap WrittenArgument.other?)) := by
  have hseg := List.forall_mem_map.mpr fun x hx =>
    WrittenArgument.isSegment (hnamed x hx) (hws x hx)
  refine ⟨?_, ?_⟩
  · exact Phrase.isEnclosed_of_bracketed .round hp hb.opener.text_eq hb.closer.text_eq
      (hj.nested_of_isSegment (by decide) hseg)
  · exact readArguments_eq (Phrase.tokens_segments (Phrase.tokens_trim_of_bracketed hp) hj hseg)
      hnamed (fun x hx => (hws x hx).ne_nil)
      (fun x hx => ((hws x hx).hides (.inl (by decide))).free) hxs

omit hnamed hws hj hxs in
/-- The phrase of a call is divided at its parentheses, all of which are right of the division. -/
theorem read_call {fs : List Token} (lookup : Lookup) (hw : WritesOperand suffixRank.level fs)
    (hp : p.tokens = fs ++ o :: (ts ++ [c])) (hts : Nested ts) :
    ∃ callee arguments hc ha, callee.tokens = fs ∧ arguments.tokens = o :: (ts ++ [c])
      ∧ read p lookup = readCall (reading p.size) callee arguments hc ha := by
  obtain ⟨hne, henc, hlowest⟩ := read_suffix hw hp hts hb
    (show Role.ofGroup .round true (o :: (ts ++ [c])) = .operator .call suffixRank from rfl)
  have hleft : (p.take fs.length).tokens = fs := Phrase.tokens_take_of_append hp
  have hright : (p.drop fs.length).tokens = o :: (ts ++ [c]) := Phrase.tokens_drop_of_append hp
  have ha : ((p.drop fs.length).trim 1).size < p.size :=
    Phrase.size_trim_lt_of_le (by decide) (Phrase.size_right_le hlowest) (size_pos hlowest)
  exact ⟨_, _, _, ha, hleft, hright, read_of_lowest hne henc hlowest⟩

theorem reads_call {f : Expr} {fs : List Token} (hw : WritesOperand suffixRank.level fs)
    (hbare : ∀ t, fs = [t] → BuiltIn.ofName? t.text = none) (hf : Reads fs f) :
    Reads (fs ++ o :: (ts ++ [c])) (.call f (arguments xs)) := fun p lookup hp => by
  have hts : Nested ts := hj.nested_of_isSegment (by decide) (List.forall_mem_map.mpr fun x hx =>
    WrittenArgument.isSegment (hnamed x hx) (hws x hx))
  obtain ⟨callee, arguments, hc, ha, hcallee, harguments, hread⟩ :=
    read_call hb lookup hw hp hts
  obtain ⟨henc, hargs⟩ := read_arguments hb hnamed hws hj hxs harguments
  rw [hread, readCall_call henc hargs (hcallee ▸ hbare) (hf _ _ hcallee)]
  rfl

theorem reads_builtIn {function : BuiltIn} {t : Token} (ht : t.Spells function.name)
    (hw : WritesOperand suffixRank.level [t]) :
    Reads (t :: o :: (ts ++ [c])) (.builtIn function (arguments xs)) := fun p lookup hp => by
  have hts : Nested ts := hj.nested_of_isSegment (by decide) (List.forall_mem_map.mpr fun x hx =>
    WrittenArgument.isSegment (hnamed x hx) (hws x hx))
  obtain ⟨callee, arguments, hc, ha, hcallee, harguments, hread⟩ :=
    read_call hb lookup hw hp hts
  obtain ⟨henc, hargs⟩ := read_arguments hb hnamed hws hj hxs harguments
  have hname : BuiltIn.ofName? t.text = some function := by
    rw [ht.text_eq]
    cases function <;> rfl
  rw [hread, readCall_builtIn henc hargs hcallee hname]
  rfl

end Arguments

theorem reads_array {items : List (Expr × List Token)} (hb : Encloses .square o c)
    (hseg : ∀ x ∈ items, IsSegment "," x.2) (hj : Joined "," (items.map (·.2)) ts)
    (hitems : ∀ x ∈ items, Reads x.2 x.1) :
    Reads (o :: (ts ++ [c])) (.array (items.map (·.1))) := fun p lookup hp => by
  have hts : Nested ts := hj.nested_of_isSegment (by decide) (List.forall_mem_map.mpr hseg)
  have hne : p.tokens ≠ [] := by rw [hp]; exact List.cons_ne_nil _ _
  have henc : p.isEnclosed .round = .ok false :=
    Phrase.isEnclosed_of_ne hp hb.opener.text_eq (by decide)
  have hlowest := lowest_container hp hb.opener.text_eq hb.closer.text_eq hts
    (show Role.ofGroup .square false _ = .operator .array containerRank from rfl)
  have hsquare := Phrase.isEnclosed_of_bracketed .square hp hb.opener.text_eq hb.closer.text_eq hts
  rw [read_of_lowest hne henc hlowest]
  exact readArray_eq hsquare
    (readSegments_eq (Phrase.tokens_trim_of_bracketed hp) hj hseg hitems)

theorem reads_dictionary {entries : List WrittenEntry} (hb : Encloses .curly o c)
    (hwkeys : ∀ x ∈ entries, WritesOperand 0 x.keyTokens)
    (hwvalues : ∀ x ∈ entries, WritesOperand 0 x.valueTokens)
    (hcolons : ∀ x ∈ entries, x.colon.Spells ":")
    (hj : Joined "," (entries.map (·.tokens)) ts)
    (hkeys : ∀ x ∈ entries, Reads x.keyTokens x.key)
    (hvalues : ∀ x ∈ entries, Reads x.valueTokens x.value) :
    Reads (o :: (ts ++ [c])) (.dictionary (entries.map fun x => (x.key, x.value))) :=
  fun p lookup hp => by
    have hseg := List.forall_mem_map.mpr fun x hx =>
      WrittenEntry.isSegment (hwkeys x hx) (hcolons x hx) (hwvalues x hx)
    have hts : Nested ts := hj.nested_of_isSegment (by decide) hseg
    have hne : p.tokens ≠ [] := by rw [hp]; exact List.cons_ne_nil _ _
    have henc : p.isEnclosed .round = .ok false :=
      Phrase.isEnclosed_of_ne hp hb.opener.text_eq (by decide)
    have hlowest := lowest_container hp hb.opener.text_eq hb.closer.text_eq hts
      (show Role.ofGroup .curly false _ = .operator .dictionary containerRank from rfl)
    have hcurly :=
      Phrase.isEnclosed_of_bracketed .curly hp hb.opener.text_eq hb.closer.text_eq hts
    have hsegments := Phrase.tokens_segments (Phrase.tokens_trim_of_bracketed hp) hj hseg
    rw [read_of_lowest hne henc hlowest]
    have htrim : (p.trim 1).size < p.size := Phrase.size_trim_lt (by decide) (size_pos hlowest)
    have hentries := readEntries_eq (n := p.size) (h := fun q hq =>
        Nat.lt_of_le_of_lt (Phrase.size_le_of_mem_segments hq) htrim) hsegments
      (fun x hx => (hwkeys x hx).hides (.inl (by decide))) (fun x hx => (hcolons x hx).text_eq)
      hkeys hvalues
    exact readDictionary_eq (h := htrim) hcurly hentries

end Expr

/-- **What is written is what is read**, with its names placed. -/
theorem Written.reads {k : Nat} {e : Expr} {ts : List Token} (h : Written k e ts) :
    e.Reads ts := by
  induction h with
  | name ht =>
    refine Expr.reads_lexeme ht.isPlain ht.ranked?_eq_none fun p lookup => ?_
    simp only [Expr.ofToken, ht.kind_eq]
    rfl
  | nothing ht =>
    refine Expr.reads_lexeme (isPlain_of_constantWord ht (by decide))
      (ranked?_of_constantWord ht (by decide)) fun p lookup => ?_
    have hkind : _ = Kind.keyword := ht.kind_eq rfl
    simp only [Expr.ofToken, hkind, ht.text_eq]
    rfl
  | boolean b ht =>
    refine Expr.reads_lexeme (isPlain_of_constantWord ht (boolean_mem_constantWords b))
      (ranked?_of_constantWord ht (boolean_mem_constantWords b)) fun p lookup => ?_
    have hkind : _ = Kind.keyword := ht.kind_eq (by cases b <;> rfl)
    simp only [Expr.ofToken, hkind, ht.text_eq]
    cases b <;> rfl
  | number ht hkind hx =>
    refine Expr.reads_lexeme (ht.isPlain (by rw [hkind]; decide))
      (Token.IsLexeme.ranked?_eq_none (by rw [hkind]; decide) (by rw [hkind]; decide))
      fun p lookup => ?_
    simp only [Expr.ofToken, hkind, hx]
    rfl
  | @text k t ht hkind =>
    have hkinds : ∀ kind ∈ [Kind.apostropheString, .quotedString, .longString],
        kind ≠ .operator ∧ kind ≠ .keyword := by decide
    obtain ⟨ho, hk⟩ := hkinds _ hkind
    refine Expr.reads_lexeme (ht.isPlain ho) (Token.IsLexeme.ranked?_eq_none ho hk)
      fun p lookup => ?_
    simp only [List.mem_cons, List.not_mem_nil, or_false] at hkind
    rcases hkind with hkind | hkind | hkind
    all_goals
      simp only [Expr.ofToken, hkind]
      rfl
  | parentheses hb hw ih => exact Expr.reads_parentheses hb hw.row ih
  | unary hop _ ht hw ih => exact Expr.reads_unary hop ht hw.row ih
  | binary hop _ ht hl hr ihl ihr => exact Expr.reads_binary hop ht hl.row hr.row ihl ihr
  | index _ he hb hkey ihe ihkey =>
    exact Expr.reads_index hb he.row hkey.row (.inl (by decide)) ihe ihkey
  | slice _ he hb htwo hbounds hj ihe ihbounds =>
    exact Expr.reads_slice hb he.row htwo (fun x hx => (hbounds x hx).row.isSegment (by decide)) hj
      ihe ihbounds
  | array _ hb hitems hj ihitems =>
    exact Expr.reads_array hb (fun x hx => (hitems x hx).row.isSegment (by decide)) hj ihitems
  | dictionary _ hb hkeys hvalues hcolons hj ihkeys ihvalues =>
    exact Expr.reads_dictionary hb (fun x hx => (hkeys x hx).row) (fun x hx => (hvalues x hx).row)
      hcolons hj ihkeys ihvalues
  | call _ hcallee hbare hb hxs hnamed hj ihcallee ihxs =>
    exact Expr.reads_call hb hnamed (fun x hx => (hxs x hx).row) hj ihxs hcallee.row hbare ihcallee
  | builtIn _ ht hb hxs hnamed hj ihxs =>
    exact Expr.reads_builtIn hb hnamed (fun x hx => (hxs x hx).row) hj ihxs ht
      (.identifier (isIdentifier_of_spells_builtIn ht))

end ScriptReader

import ScriptReader.Proofs.Expr.Written

/-!
# Proofs/Expr/Rules — what each rule makes of phrases whose tokens are known

`Reads ts e` says that every phrase of the tokens is read as `e`, placed as the look-up asks for.
There is one lemma for each rule of reading, from what its parts read as to what the whole does.
-/

namespace ScriptReader.Expr

open ScriptReader.Bracket

variable {p q : Phrase} {lookup : Lookup} {n : Nat}

/-- Reading, as the rules are given it. -/
abbrev reading (n : Nat) : Sub n := fun q _ lookup => read q lookup

/-- **Every phrase of these tokens is read as the expression, placed as asked for.** -/
def Reads (ts : List Token) (e : Expr) : Prop :=
  ∀ (p : Phrase) (lookup : Lookup), p.tokens = ts → read p lookup = .ok (e.placed lookup)

/-! ## One step -/

theorem unwrap_of_not_enclosed (h : p.isEnclosed .round = .ok false) : p.unwrap = .ok p := by
  rw [Phrase.unwrap]
  split
  · next he => rw [h] at he; cases he
  · rfl
  · next ht => rw [h] at ht; cases ht

theorem unwrap_of_enclosed (h : p.isEnclosed .round = .ok true) :
    p.unwrap = (p.trim 1).unwrap := by
  rw [Phrase.unwrap]
  split
  · next he => rw [h] at he; cases he
  · next hf => rw [h] at hf; cases hf
  · rfl

theorem read_of_ne_nil (hne : p.tokens ≠ []) :
    read p lookup = p.unwrap.bind fun q => readUnwrapped q (reading q.size) lookup := by
  rw [read_eq, readStep, if_neg (by rw [Phrase.isEmpty_eq_false hne]; exact Bool.false_ne_true)]
  split
  · next e he => rw [he]; rfl
  · next q hq => rw [hq]; rfl

/-- Parentheses around a phrase mean nothing. -/
theorem read_parentheses {o c : Token} {ts : List Token} (hp : p.tokens = o :: (ts ++ [c]))
    (ho : o.text = Bracket.round.openerText) (hc : c.text = Bracket.round.closerText)
    (hts : Nested ts) (hne : ts ≠ []) : read p lookup = read (p.trim 1) lookup := by
  have henc := Phrase.isEnclosed_of_bracketed .round hp ho hc hts
  have htrim : (p.trim 1).tokens = ts := Phrase.tokens_trim_of_bracketed hp
  rw [read_of_ne_nil (by rw [hp]; exact List.cons_ne_nil _ _), unwrap_of_enclosed henc,
    read_of_ne_nil (by rwa [htrim])]

/-- A phrase that no parentheses enclose is read as it is. -/
theorem read_of_not_enclosed (hne : p.tokens ≠ []) (h : p.isEnclosed .round = .ok false) :
    read p lookup = readUnwrapped p (reading p.size) lookup := by
  rw [read_of_ne_nil hne, unwrap_of_not_enclosed h]
  rfl

/-- One word or literal. -/
theorem read_token {t : Token} (hp : p.tokens = [t]) (ht : t.IsPlain) (hr : t.ranked? = none) :
    read p lookup = ofToken t p lookup := by
  rw [read_of_not_enclosed (by rw [hp]; exact List.cons_ne_nil _ _)
    (Phrase.isEnclosed_of_token .round hp ht), readUnwrapped]
  have hlowest := lowest_token hp ht hr
  split
  · next he => rw [hlowest] at he; cases he
  · rw [ofOperand]
    simp only [hp]
  · next hd => rw [hlowest] at hd; cases hd

/-! ## Divided phrases -/

theorem size_pos {d : Division} (hd : p.lowest = .ok (some d)) : 0 < p.size :=
  Nat.zero_lt_of_lt (Phrase.size_left_lt hd)

section Divided

variable {d : Division} (hne : p.tokens ≠ []) (henc : p.isEnclosed .round = .ok false)
  (hd : p.lowest = .ok (some d))
include hne henc hd

theorem read_of_lowest : read p lookup =
    if _ : d.op = .array then
      readArray (reading p.size) p (Phrase.size_trim_lt (by decide) (size_pos hd))
    else if _ : d.op = .dictionary then
      readDictionary (reading p.size) p (Phrase.size_trim_lt (by decide) (size_pos hd))
    else if _ : d.op = .call then
      readCall (reading p.size) d.left d.right (Phrase.size_left_lt hd)
        (Phrase.size_trim_lt_of_le (by decide) (Phrase.size_right_le hd) (size_pos hd))
    else
      readOperator (reading p.size) d.op d.left d.right (Phrase.size_left_lt hd)
        (Phrase.size_right_lt hd ‹_› ‹_› ‹_›) lookup := by
  rw [read_of_not_enclosed hne henc, readUnwrapped]
  split
  · next he => rw [hd] at he; cases he
  · next hn => rw [hd] at hn; cases hn
  · next d' hd' =>
    obtain rfl : d = d' := by rw [hd] at hd'; exact Option.some.inj (Except.ok.inj hd')
    rfl

end Divided

/-! ## Operators -/

theorem readOperator_unary {op : Operator} {left right : Phrase} {hl : left.size < n}
    {hr : right.size < n} {e : Expr} (hop : isSign op) (hleft : left.tokens = [])
    (hright : right.tokens ≠ []) (he : read right .value = .ok e) :
    readOperator (reading n) op left right hl hr lookup = .ok (.unary op e) := by
  have hempty : left.isEmpty = true := by rw [Phrase.isEmpty, hleft, List.isEmpty_nil]
  rw [readOperator, if_neg (by rw [Phrase.isEmpty_eq_false hright]; exact Bool.false_ne_true),
    if_pos hempty, if_pos hop]
  simp only [reading, he]
  rfl

section Binary

variable {op : Operator} {left right : Phrase} {hl : left.size < n} {hr : right.size < n}
  {l r : Expr} (hleft : left.tokens ≠ []) (hright : right.tokens ≠ [])
include hleft hright

theorem readOperator_binary (hnot : op ≠ .not) (hslice : op ≠ .slice)
    (hel : read left (if op.assigns then .reference else .value) = .ok l)
    (her : read right lookup = .ok r) :
    readOperator (reading n) op left right hl hr lookup = .ok (.binary op l r) := by
  rw [readOperator, if_neg (by rw [Phrase.isEmpty_eq_false hright]; exact Bool.false_ne_true),
    if_neg (by rw [Phrase.isEmpty_eq_false hleft]; exact Bool.false_ne_true), if_neg hnot]
  simp only [reading, hel, if_neg hslice, her]
  rfl

theorem readOperator_slice {es : List Expr} (hel : read left .value = .ok l)
    (her : readSegments (reading n) ":" right hr = .ok es) :
    readOperator (reading n) .slice left right hl hr lookup
      = .ok (.binary .slice l (.array es)) := by
  rw [readOperator, if_neg (by rw [Phrase.isEmpty_eq_false hright]; exact Bool.false_ne_true),
    if_neg (by rw [Phrase.isEmpty_eq_false hleft]; exact Bool.false_ne_true),
    if_neg (by decide), if_neg (by decide)]
  simp only [reading, hel, her, reduceIte]
  rfl

end Binary

/-! ## Segments -/

theorem readEach_eq {items : List (Expr × List Token)} {ps : List Phrase}
    {h : ∀ p ∈ ps, p.size < n} (hps : ps.map Phrase.tokens = items.map (·.2))
    (hitems : ∀ x ∈ items, Reads x.2 x.1) :
    readEach (reading n) ps h = .ok (placedAll (items.map (·.1))) := by
  have hforall := Phrase.forall₂_of_map_tokens hps
  clear hps
  induction hforall with
  | nil => rfl
  | @cons p x ps items hp _ ih =>
    obtain ⟨hx, hitems⟩ := List.forall_mem_cons.mp hitems
    rw [readEach, ih hitems]
    simp only [reading, hx p .value hp]
    rfl

theorem readSegments_eq {separator : String} {items : List (Expr × List Token)}
    {ts : List Token} {h : p.size < n} (hp : p.tokens = ts)
    (hj : Joined separator (items.map (·.2)) ts)
    (hseg : ∀ x ∈ items, IsSegment separator x.2) (hitems : ∀ x ∈ items, Reads x.2 x.1) :
    readSegments (reading n) separator p h = .ok (placedAll (items.map (·.1))) :=
  readEach_eq (Phrase.tokens_segments hp hj (List.forall_mem_map.mpr hseg)) hitems

/-! ## Entries and arguments -/

section Cons

variable {ps : List Phrase} {h : ∀ q ∈ p :: ps, q.size < n}

/-- An entry is divided at its colon. -/
theorem readEntries_cons {x : WrittenEntry} {entries : List (Expr × Expr)}
    (hp : p.tokens = x.tokens) (hhides : Hides ":" x.keyTokens) (hcolon : x.colon.text = ":")
    (hkey : Reads x.keyTokens x.key) (hvalue : Reads x.valueTokens x.value)
    (hrest : readEntries (reading n) ps (fun q hq => h q (List.mem_cons_of_mem _ hq))
      = .ok entries) :
    readEntries (reading n) (p :: ps) h
      = .ok ((x.key.placed .value, x.value.placed .value) :: entries) := by
  have hsplit : p.tokens = x.keyTokens ++ x.colon :: x.valueTokens := hp
  have hfind : p.findOutside? ":" = some x.keyTokens.length := by
    rw [Phrase.findOutside?, hsplit]
    exact hhides.findOutside?_append_cons hcolon
  have hkey := hkey (p.take x.keyTokens.length) .value (Phrase.tokens_take_of_append hsplit)
  have hvalue := hvalue (p.drop (x.keyTokens.length + 1)) .value (Phrase.tokens_drop_of_cons hsplit)
  rw [readEntries]
  simp only [hfind, hkey, hvalue, hrest]
  rfl

variable {named : List (Expr × Expr)} {others : List Expr} {value : Expr} {ts : List Token}
  (hvalue : Reads ts value)
  (hrest : readArguments (reading n) ps (fun q hq => h q (List.mem_cons_of_mem _ hq))
    = .ok (named, others))
include hvalue hrest

/-- A named argument shows its equals sign behind the name. -/
theorem readArguments_named {key equals : Token} (hp : p.tokens = key :: equals :: ts)
    (hkey : key.IsIdentifier) (hequals : equals.Spells "=") (hne : ts ≠ []) :
    readArguments (reading n) (p :: ps) h
      = .ok ((.text key.text, value.placed .value) :: named, others) := by
  obtain ⟨t, ts, rfl⟩ := List.exists_cons_of_ne_nil hne
  have hfind : findOutside? "=" 0 (key :: equals :: t :: ts) = some 1 :=
    (hkey.hides rfl).findOutside?_append_cons hequals.text_eq
  have hout : p.hasOutside "=" = true := by
    rw [Phrase.hasOutside, Phrase.findOutside?, hp, hfind]
    rfl
  have htext : p.hasText 1 "=" = true := by
    rw [Phrase.hasText, hp, List.getElem?_cons_succ, List.getElem?_cons_zero, Option.map_some,
      hequals.text_eq]
    rfl
  have hvalue := hvalue (p.drop 2) .value (Phrase.tokens_drop_two hp)
  rw [readArguments, if_pos hout]
  simp only [hp, hkey.kind_eq, htext, and_self, reduceIte, hvalue, hrest]
  rfl

/-- Any other argument shows none. -/
theorem readArguments_other (hp : p.tokens = ts) (hfree : findOutside? "=" 0 ts = none) :
    readArguments (reading n) (p :: ps) h = .ok (named, value.placed .value :: others) := by
  have hout : p.hasOutside "=" = false := by
    rw [Phrase.hasOutside, Phrase.findOutside?, hp, hfree]
    rfl
  rw [readArguments, if_neg (by rw [hout]; exact Bool.false_ne_true)]
  simp only [reading, hvalue p .value hp, hrest]
  rfl

end Cons

theorem readEntries_eq {entries : List WrittenEntry} {ps : List Phrase}
    {h : ∀ p ∈ ps, p.size < n} (hps : ps.map Phrase.tokens = entries.map (·.tokens))
    (hhides : ∀ x ∈ entries, Hides ":" x.keyTokens) (hcolon : ∀ x ∈ entries, x.colon.text = ":")
    (hkeys : ∀ x ∈ entries, Reads x.keyTokens x.key)
    (hvalues : ∀ x ∈ entries, Reads x.valueTokens x.value) :
    readEntries (reading n) ps h
      = .ok (placedEntries (entries.map fun x => (x.key, x.value))) := by
  have hforall := Phrase.forall₂_of_map_tokens hps
  clear hps
  induction hforall with
  | nil => rfl
  | cons hp _ ih =>
    obtain ⟨hhides₀, hhides⟩ := List.forall_mem_cons.mp hhides
    obtain ⟨hcolon₀, hcolon⟩ := List.forall_mem_cons.mp hcolon
    obtain ⟨hkey, hkeys⟩ := List.forall_mem_cons.mp hkeys
    obtain ⟨hvalue, hvalues⟩ := List.forall_mem_cons.mp hvalues
    exact readEntries_cons hp hhides₀ hcolon₀ hkey hvalue (ih hhides hcolon hkeys hvalues)

/-- **Arguments are told apart by their equals signs**, each kind in its order. -/
theorem readArguments_eq {xs : List WrittenArgument} {ps : List Phrase}
    {h : ∀ p ∈ ps, p.size < n} (hps : ps.map Phrase.tokens = xs.map (·.tokens))
    (hnamed : ∀ x ∈ xs, x.IsNamed) (hne : ∀ x ∈ xs, x.valueTokens ≠ [])
    (hfree : ∀ x ∈ xs, findOutside? "=" 0 x.valueTokens = none)
    (hvalues : ∀ x ∈ xs, Reads x.valueTokens x.value) :
    readArguments (reading n) ps h
      = .ok (placedEntries (xs.filterMap WrittenArgument.entry?),
        placedAll (xs.filterMap WrittenArgument.other?)) := by
  have hforall := Phrase.forall₂_of_map_tokens hps
  clear hps
  induction hforall with
  | nil => rfl
  | @cons p x ps xs hp _ ih =>
    obtain ⟨hnamed₀, hnamed⟩ := List.forall_mem_cons.mp hnamed
    obtain ⟨hne₀, hne⟩ := List.forall_mem_cons.mp hne
    obtain ⟨hfree₀, hfree⟩ := List.forall_mem_cons.mp hfree
    obtain ⟨hvalue, hvalues⟩ := List.forall_mem_cons.mp hvalues
    have hrest := ih (h := fun q hq => h q (List.mem_cons_of_mem _ hq)) hnamed hne hfree hvalues
    obtain ⟨named?, value, ts⟩ := x
    cases named? with
    | some named =>
      obtain ⟨hkey, hequals⟩ := hnamed₀ named.1 named.2 rfl
      exact readArguments_named hvalue hrest hp hkey hequals hne₀
    | none => exact readArguments_other hvalue hrest hp hfree₀

/-! ## Calls and containers -/

section Call

variable {callee arguments : Phrase} {hc : callee.size < n} {ha : (arguments.trim 1).size < n}
  {named : List (Expr × Expr)} {others : List Expr}
  (henc : arguments.isEnclosed .round = .ok true)
  (hargs : readArguments (reading n) ((arguments.trim 1).segments ",")
    (fun _ hq => Nat.lt_of_le_of_lt (Phrase.size_le_of_mem_segments hq) ha) = .ok (named, others))
include henc hargs

theorem readCall_builtIn {t : Token} {function : BuiltIn} (ht : callee.tokens = [t])
    (hname : BuiltIn.ofName? t.text = some function) :
    readCall (reading n) callee arguments hc ha
      = .ok (.builtIn function (.dictionary named :: others)) := by
  have hsize : callee.size = 1 := by rw [Phrase.size, ht, List.length_singleton]
  have htext : callee.textAt 0 = t.text := by rw [Phrase.textAt, ht]; rfl
  rw [readCall, henc]
  simp only [hargs, hsize, htext, hname, reduceIte]
  rfl

theorem readCall_call {f : Expr} (hbare : ∀ t, callee.tokens = [t] → BuiltIn.ofName? t.text = none)
    (hf : read callee .reference = .ok f) :
    readCall (reading n) callee arguments hc ha
      = .ok (.call f (.dictionary named :: others)) := by
  have hnone : (if callee.size = 1 then BuiltIn.ofName? (callee.textAt 0) else none) = none := by
    split
    · next hsize =>
      obtain ⟨t, ht⟩ := List.length_eq_one_iff.mp hsize
      rw [Phrase.textAt, ht]
      exact hbare t ht
    · rfl
  rw [readCall, henc]
  simp only [hargs, hnone, reading, hf]
  rfl

end Call

theorem readArray_eq {es : List Expr} {h : (p.trim 1).size < n}
    (henc : p.isEnclosed .square = .ok true)
    (hes : readSegments (reading n) "," (p.trim 1) h = .ok es) :
    readArray (reading n) p h = .ok (.array es) := by
  rw [readArray, henc]
  simp only [hes]
  rfl

theorem readDictionary_eq {entries : List (Expr × Expr)} {h : (p.trim 1).size < n}
    (henc : p.isEnclosed .curly = .ok true)
    (hentries : readEntries (reading n) ((p.trim 1).segments ",")
      (fun _ hq => Nat.lt_of_le_of_lt (Phrase.size_le_of_mem_segments hq) h) = .ok entries) :
    readDictionary (reading n) p h = .ok (.dictionary entries) := by
  rw [readDictionary, henc]
  simp only [hentries]
  rfl

end ScriptReader.Expr

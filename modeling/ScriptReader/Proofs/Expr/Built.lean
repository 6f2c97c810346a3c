import ScriptReader.Proofs.Expr.LookedUp
import ScriptReader.Proofs.Expr.Operands

/-!
# Proofs/Expr/Built — what the rules of reading preserve, every expression that is read has

An expression is read by one rule, from parts that are read by others.  So a property of expressions
and their look-ups holds of all that is read if each rule preserves it (`Expr.Built`): there is one
lemma for each function that a rule is made of, and by induction on the number of tokens the
property holds of what is read from any phrase of a text (`Expr.Built.read`).
-/

namespace ScriptReader

/-! ## Divisions -/

namespace Phrase

variable {p : Phrase} {d : Division}

/-- A separator outside all brackets has a segment on either side. -/
theorem two_le_length_segments {separator : String} (h : p.hasOutside separator) :
    2 ≤ (p.segments separator).length := by
  obtain ⟨k, hk⟩ := Option.isSome_iff_exists.mp h
  obtain ⟨t, -, hsplit⟩ := Expr.exists_of_findOutside? hk
  have hlt := findOutside?_lt hk
  have htake : (p.tokens.take k).length = k := List.length_take_of_le hlt.le
  have hne : p.isEmpty = false := isEmpty_eq_false (List.ne_nil_of_length_pos (by omega))
  have hother : ScriptReader.findOutside? separator 0
      (p.tokens.take k ++ t :: p.tokens.drop (k + 1)) = some (p.tokens.take k).length := by
    rw [← hsplit, htake]
    exact hk
  have hparts := splitOutside_append_cons hother
  rw [← hsplit] at hparts
  have hlength := congrArg List.length (tokens_ofSeparated p.start p.lineBefore p.lineAfter
    (splitOutside separator 0 p.tokens).1 (splitOutside separator 0 p.tokens).2)
  rw [List.length_map, hparts, List.length_cons, List.length_map, List.length_cons] at hlength
  rw [segments, if_neg (by rw [hne]; exact Bool.false_ne_true), hparts, hlength]
  exact Nat.le_add_left 2 _

/-- No phrase is divided at plain parentheses. -/
theorem op_ne_parenthesis (h : p.lowest = .ok (some d)) : d.op ≠ .parenthesis := by
  obtain ⟨as, g, bs, op, rank, hat, rfl⟩ := exists_isDividedAt_of_lowest h
  rintro (rfl : op = .parenthesis)
  rcases hat.group_cases with ⟨t, rfl, ht⟩ | ⟨b, hg⟩
  · obtain ⟨rank', hranked⟩ := ranked?_of_roleOf ht hat.role
    exact absurd (by decide) (op_notMem_of_ranked hranked)
  · simpa using roleOf_isBracketed hg hat.role

/-- **A slice has a colon in its brackets**, and so two segments or more. -/
theorem two_le_length_slice (h : p.lowest = .ok (some d)) (hop : d.op = .slice) :
    2 ≤ (d.right.segments ":").length := by
  obtain ⟨as, g, bs, op, rank, hat, rfl⟩ := exists_isDividedAt_of_lowest h
  obtain rfl : op = .slice := hop
  have hrole := hat.role
  rcases hat.group_cases with ⟨t, rfl, ht⟩ | ⟨b, o, c, inner, rfl, ho, hc⟩
  · obtain ⟨rank', hranked⟩ := ranked?_of_roleOf ht hrole
    exact absurd (by decide) (op_notMem_of_ranked hranked)
  · have hcolon : (ScriptReader.findOutside? ":" 0 inner).isSome := by
      rw [roleOf_bracketed ho] at hrole
      unfold Role.ofGroup at hrole
      repeat' split at hrole
      all_goals try cases hrole
      next hcolon => rwa [interior_bracketed] at hcolon
    have hp : p.tokens = as.flatten ++ o :: (inner ++ c :: bs.flatten) := by
      rw [hat.tokens_eq]
      simp
    have hlast : as.flatten.length + (o :: (inner ++ [c])).length - 1
        = as.flatten.length + inner.length + 1 := by
      simp only [List.length_cons, List.length_append, List.length_nil]
      omega
    refine two_le_length_segments ?_
    simp only [divide, or_true, if_true, hlast, hasOutside, findOutside?,
      tokens_slice_of_bracketed hp, hcolon]

end Phrase

/-! ## The phrases of a text -/

namespace Phrase

/-- The phrases are scanned, and with each of them there are its stretches and its segments. -/
structure AreParts (Part : Phrase → Prop) : Prop where
  isScanned {p : Phrase} (hp : Part p) : p.IsScanned
  slice {p : Phrase} (hp : Part p) (first last : Nat) : Part (p.slice first last)
  segment {p q : Phrase} {separator : String} (hp : Part p) (hq : q ∈ p.segments separator) : Part q

namespace AreParts

variable {Part : Phrase → Prop} {p q : Phrase} {d : Division}

theorem unwrap (h : AreParts Part) (hp : Part p) (hq : p.unwrap = .ok q) : Part q := by
  fun_induction Phrase.unwrap p with
  | case1 => cases hq
  | case2 =>
    cases hq
    exact hp
  | case3 p _ _ ih => exact ih (h.slice hp _ _) hq

theorem lowest (h : AreParts Part) (hp : Part p) (hd : p.lowest = .ok (some d)) :
    Part d.left ∧ Part d.right := by
  obtain ⟨pos, first, last, hleft, hright⟩ := exists_slices_of_lowest hd
  exact ⟨hleft ▸ h.slice hp _ _, hright ▸ h.slice hp _ _⟩

end AreParts

end Phrase

namespace Expr

/-! ## Rules -/

/-- The arguments of a call: a dictionary of the named ones, whose keys are texts, then the
others. -/
def IsArguments (arguments : List Expr) : Prop :=
  ∃ named others, arguments = .dictionary named :: others ∧ ∀ entry ∈ named, ∃ s, entry.1 = .text s

/-- **How expressions come to have a property** when they are looked up: from constants and names,
and from the operands of operators, the items of containers and the arguments of calls.  `Part`
tells the phrases of the text that they are read from. -/
structure Built (Part : Phrase → Prop) (P : Lookup → Expr → Prop) : Prop where
  parts : Phrase.AreParts Part
  nothing (lookup : Lookup) : P lookup .nothing
  text (lookup : Lookup) (s : String) : P lookup (.text s)
  operand {p : Phrase} (hp : Part p) (lookup : Lookup) : Yields (P lookup) (ofOperand p lookup)
  array {lookup : Lookup} {items : List Expr} (hitems : ∀ e ∈ items, P .value e) :
    P lookup (.array items)
  dictionary {lookup : Lookup} {entries : List (Expr × Expr)}
    (hkeys : ∀ entry ∈ entries, P .value entry.1) (hvalues : ∀ entry ∈ entries, P .value entry.2) :
    P lookup (.dictionary entries)
  unary {p : Phrase} {lookup : Lookup} {op : Operator} {operand : Expr} (hp : Part p)
    (hread : read p lookup = .ok (.unary op operand)) (hop : op ∈ [Operator.plus, .minus, .not])
    (h : P .value operand) : P lookup (.unary op operand)
  /-- What is assigned to is a reference; a slice has two bounds or more. -/
  binary {p : Phrase} {lookup : Lookup} {op : Operator} {left right : Expr} (hp : Part p)
    (hread : read p lookup = .ok (.binary op left right))
    (hop : op ∉ [Operator.not, .call, .array, .dictionary, .parenthesis])
    (hslice : op = .slice → ∃ items, right = .array items ∧ 2 ≤ items.length)
    (hleft : P (if op.assigns then .reference else .value) left) (hright : P lookup right) :
    P lookup (.binary op left right)
  call {lookup : Lookup} {callee : Expr} {arguments : List Expr} (hargs : IsArguments arguments)
    (hcallee : P .reference callee) (h : ∀ e ∈ arguments, P .value e) :
    P lookup (.call callee arguments)
  builtIn {lookup : Lookup} {function : BuiltIn} {arguments : List Expr}
    (hargs : IsArguments arguments) (h : ∀ e ∈ arguments, P .value e) :
    P lookup (.builtIn function arguments)

namespace Built

variable {Part : Phrase → Prop} {P : Lookup → Expr → Prop} (hbuilt : Built Part P) {n : Nat}
  {sub : Sub n} (hsub : ∀ (q : Phrase) (hq : q.size < n) (lookup : Lookup), Part q →
    Yields (P lookup) (sub q hq lookup))

include hsub

theorem readEach {ps : List Phrase} {hps : ∀ p ∈ ps, p.size < n} (hparts : ∀ p ∈ ps, Part p) :
    Yields (fun es => es.length = ps.length ∧ ∀ e ∈ es, P .value e) (readEach sub ps hps) := by
  induction ps with
  | nil => exact .ok ⟨rfl, nofun⟩
  | cons p ps ih =>
    obtain ⟨hp, hparts⟩ := List.forall_mem_cons.mp hparts
    refine (hsub p _ _ hp).bind fun e he => (ih hparts).bind fun es ⟨hlength, hes⟩ => ?_
    exact .ok ⟨congrArg (· + 1) hlength, List.forall_mem_cons.mpr ⟨he, hes⟩⟩

include hbuilt

theorem readSegments {separator : String} {p : Phrase} {hp : p.size < n} (hphrase : Part p) :
    Yields (fun es => es.length = (p.segments separator).length ∧ ∀ e ∈ es, P .value e)
      (readSegments sub separator p hp) :=
  readEach hsub fun _ hq => hbuilt.parts.segment hphrase hq

theorem readArray {p : Phrase} {hp : (p.trim 1).size < n} (hphrase : Part p) (lookup : Lookup) :
    Yields (P lookup) (readArray sub p hp) := by
  intro e h
  obtain ⟨enclosed, -, h⟩ := exists_of_bind_ok h
  cases enclosed with
  | false => cases h
  | true =>
    have htrim : Part (p.trim 1) := hbuilt.parts.slice hphrase _ _
    exact (hbuilt.readSegments hsub htrim).bind (fun es hes => .ok (hbuilt.array hes.2)) e h

theorem readEntries {ps : List Phrase} {hps : ∀ p ∈ ps, p.size < n}
    (hparts : ∀ p ∈ ps, Part p) :
    Yields (fun entries => (∀ entry ∈ entries, P .value entry.1)
      ∧ ∀ entry ∈ entries, P .value entry.2) (readEntries sub ps hps) := by
  induction ps with
  | nil => exact .ok ⟨nofun, nofun⟩
  | cons p ps ih =>
    obtain ⟨hp, hparts⟩ := List.forall_mem_cons.mp hparts
    rw [Expr.readEntries]
    split
    · exact .refuse
    · refine (hsub _ _ _ (hbuilt.parts.slice hp _ _)).bind fun key hkey => ?_
      refine (hsub _ _ _ (hbuilt.parts.slice hp _ _)).bind fun value hvalue => ?_
      refine (ih hparts).bind fun entries hentries => ?_
      obtain ⟨hkeys, hvalues⟩ := hentries
      exact .ok ⟨List.forall_mem_cons.mpr ⟨hkey, hkeys⟩,
        List.forall_mem_cons.mpr ⟨hvalue, hvalues⟩⟩

theorem readDictionary {p : Phrase} {hp : (p.trim 1).size < n} (hphrase : Part p)
    (lookup : Lookup) : Yields (P lookup) (readDictionary sub p hp) := by
  intro e h
  obtain ⟨enclosed, -, h⟩ := exists_of_bind_ok h
  cases enclosed with
  | false => cases h
  | true =>
    have htrim : Part (p.trim 1) := hbuilt.parts.slice hphrase _ _
    exact (hbuilt.readEntries hsub fun q hq => hbuilt.parts.segment htrim hq).bind
      (fun entries hentries => .ok (hbuilt.dictionary hentries.1 hentries.2)) e h

/-- Named arguments have texts for keys. -/
theorem readArguments {ps : List Phrase} {hps : ∀ p ∈ ps, p.size < n}
    (hparts : ∀ p ∈ ps, Part p) :
    Yields (fun read => (∀ entry ∈ read.1, (∃ s, entry.1 = .text s) ∧ P .value entry.2)
      ∧ ∀ e ∈ read.2, P .value e) (readArguments sub ps hps) := by
  induction ps with
  | nil => exact .ok ⟨nofun, nofun⟩
  | cons p ps ih =>
    obtain ⟨hp, hparts⟩ := List.forall_mem_cons.mp hparts
    rw [Expr.readArguments]
    split
    · split
      · split
        · refine (hsub _ _ _ (hbuilt.parts.slice hp _ _)).bind fun value hvalue => ?_
          refine (ih hparts).bind fun read hread => ?_
          obtain ⟨hnamed, hothers⟩ := hread
          exact .ok ⟨List.forall_mem_cons.mpr ⟨⟨⟨_, rfl⟩, hvalue⟩, hnamed⟩, hothers⟩
        · exact .refuse
      · exact .refuse
    · refine (hsub _ _ _ hp).bind fun e he => ?_
      refine (ih hparts).bind fun read hread => ?_
      obtain ⟨hnamed, hothers⟩ := hread
      exact .ok ⟨hnamed, List.forall_mem_cons.mpr ⟨he, hothers⟩⟩

theorem readCall {callee arguments : Phrase} {hc : callee.size < n}
    {ha : (arguments.trim 1).size < n} (hcallee : Part callee) (harguments : Part arguments)
    (lookup : Lookup) : Yields (P lookup) (readCall sub callee arguments hc ha) := by
  intro e h
  obtain ⟨enclosed, -, h⟩ := exists_of_bind_ok h
  cases enclosed with
  | false => cases h
  | true =>
    have htrim : Part (arguments.trim 1) := hbuilt.parts.slice harguments _ _
    refine (hbuilt.readArguments hsub fun q hq => hbuilt.parts.segment htrim hq).bind
      (fun ⟨named, others⟩ ⟨hnamed, hothers⟩ => ?_) e h
    have hargs : IsArguments (.dictionary named :: others) :=
      ⟨named, others, rfl, fun entry hentry => (hnamed entry hentry).1⟩
    have hall : ∀ e ∈ Expr.dictionary named :: others, P .value e := by
      refine List.forall_mem_cons.mpr ⟨hbuilt.dictionary (fun entry hentry => ?_)
        fun entry hentry => (hnamed entry hentry).2, hothers⟩
      obtain ⟨s, hs⟩ := (hnamed entry hentry).1
      exact hs ▸ hbuilt.text .value s
    dsimp only
    split
    · exact .ok (hbuilt.builtIn hargs hall)
    · exact (hsub callee hc .reference hcallee).bind fun f hf =>
        .ok (hbuilt.call hargs hf hall)

/-- What is read as an operator has the property, if it is what a phrase of the text is read as. -/
theorem readOperator {op : Operator} {left right p : Phrase} {hl : left.size < n}
    {hr : right.size < n} {lookup : Lookup} {e : Expr}
    (hop : op ∉ [Operator.call, .array, .dictionary, .parenthesis])
    (hslice : op = .slice → 2 ≤ (right.segments ":").length) (hleft : Part left)
    (hright : Part right) (hp : Part p) (hread : read p lookup = .ok e)
    (h : readOperator sub op left right hl hr lookup = .ok e) : P lookup e := by
  cases readOperator_cases h with
  | unary _ _ hsign hoperand he =>
    subst he
    have hmem : op ∈ [Operator.plus, .minus, .not] := by
      simpa only [isSign, Bool.or_eq_true, beq_iff_eq, List.mem_cons, List.not_mem_nil, or_false,
        or_assoc] using hsign
    exact hbuilt.unary hp hread hmem (hsub right _ _ hright _ hoperand)
  | binary _ _ hnot hnotSlice _ _ he =>
    subst he
    obtain ⟨hl, hr⟩ := operands_of_readOperator h
    have hnotMem : op ∉ [Operator.not, .call, .array, .dictionary, .parenthesis] := fun hmem =>
      (List.mem_cons.mp hmem).elim hnot hop
    exact hbuilt.binary hp hread hnotMem (fun hop => absurd hop hnotSlice)
      (hsub left _ _ hleft _ hl) (hsub right _ _ hright _ (hr hnotSlice))
  | @slice _ bounds _ _ _ heq _ _ hbounds he =>
    subst he
    obtain ⟨hl, -⟩ := operands_of_readOperator h
    obtain ⟨hlength, hall⟩ := hbuilt.readSegments hsub hright bounds hbounds
    exact hbuilt.binary hp hread (by decide) (fun _ => ⟨bounds, rfl, hlength ▸ hslice heq⟩)
      (hsub left _ _ hleft _ hl) (hbuilt.array hall)

omit hsub

/-! ## Phrases -/

theorem readUnwrapped {p q : Phrase} {sub : Sub q.size} {lookup : Lookup} {e : Expr}
    (hsub : ∀ (r : Phrase) (hr : r.size < q.size) (lookup : Lookup), Part r →
      Yields (P lookup) (sub r hr lookup))
    (hq : Part q) (hp : Part p) (hread : read p lookup = .ok e)
    (h : readUnwrapped q sub lookup = .ok e) : P lookup e := by
  unfold Expr.readUnwrapped at h
  split at h
  · cases h
  · exact hbuilt.operand hq lookup e h
  · next d hd =>
    obtain ⟨hleft, hright⟩ := hbuilt.parts.lowest hq hd
    dsimp only at h
    split at h
    · exact hbuilt.readArray hsub hq lookup e h
    split at h
    · exact hbuilt.readDictionary hsub hq lookup e h
    split at h
    · exact hbuilt.readCall hsub hleft hright lookup e h
    · next harray hdictionary hcall =>
      refine hbuilt.readOperator hsub ?_ (Phrase.two_le_length_slice hd) hleft hright hp hread h
      have hparenthesis := Phrase.op_ne_parenthesis hd
      simp only [List.mem_cons, List.not_mem_nil, or_false, not_or]
      exact ⟨hcall, harray, hdictionary, hparenthesis⟩

/-- **Whatever is read from a phrase of the text has the property.** -/
theorem read {p : Phrase} (hp : Part p) (lookup : Lookup) :
    Yields (P lookup) (read p lookup) := by
  induction hn : p.size using Nat.strongRecOn generalizing p lookup with
  | ind n ih =>
    subst hn
    intro e hread
    have h := hread
    rw [read_eq, readStep] at h
    split at h
    · cases h
      exact hbuilt.nothing lookup
    split at h
    · cases h
    · next q hq =>
      refine hbuilt.readUnwrapped (fun r hr lookup hrp => ?_) (hbuilt.parts.unwrap hp hq) hp hread h
      exact ih r.size (Nat.lt_of_lt_of_le hr (Phrase.size_unwrap_le hq)) hrp lookup rfl

end Built

end Expr

end ScriptReader

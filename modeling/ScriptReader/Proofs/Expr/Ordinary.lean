import ScriptReader.Proofs.Phrase.Formed

/-!
# Proofs/Expr/Ordinary — reading a sound phrase asks for sound phrases and fails in ordinary ways

Some problems are defensive: they are raised where a bracket is not found that must be there, or
where what has been found already is looked for again.  All others are ordinary.  `Agrees` compares
two runs of a rule: they come to the same result, and if that is an error it is an ordinary one.
There is one lemma for each rule of reading, for two readings of the parts that agree on the phrases
formed; so a reader that gives up at any other phrase reads the same (`Expr.agrees_readWithin`).
-/

namespace ScriptReader

/-! ## Ordinary errors -/

/-- Is the problem raised only where a search fails that cannot fail? -/
def Problem.isDefensive : Problem → Bool
  | notOpening _ | noClosing _ | notClosing _ | noOpening _ | branchConditionMissing
  | assignmentMissing _ => true
  | _ => false

/-- Does the error report a problem with the script that is not defensive? -/
def Error.isOrdinary : Error → Bool
  | script problem _ => !problem.isDefensive
  | outOfRange .. | notText _ => false

/-- **Two runs agree**, and if they fail it is with an ordinary error. -/
structure Agrees {α : Type} (x y : Except Error α) : Prop where
  eq : x = y
  ordinary : ∀ e, x = .error e → e.isOrdinary

namespace Agrees

variable {α β : Type} {x y : Except Error α}

theorem ok (a : α) : Agrees (.ok a) (.ok a) := ⟨rfl, nofun⟩

theorem error {e : Error} (h : e.isOrdinary) : Agrees (α := α) (.error e) (.error e) := by
  refine ⟨rfl, fun e' he => ?_⟩
  cases he
  exact h

theorem refuse {p : Phrase} {pos : Nat} {problem : Problem} (h : problem.isDefensive = false) :
    Agrees (α := α) (p.refuse pos problem) (p.refuse pos problem) :=
  error (by rw [Error.isOrdinary, h]; rfl)

theorem bind {f g : α → Except Error β} (h : Agrees x y)
    (hf : ∀ a, x = .ok a → Agrees (f a) (g a)) : Agrees (x >>= f) (y >>= g) := by
  obtain ⟨rfl, hordinary⟩ := h
  cases x with
  | error e => exact error (hordinary e rfl)
  | ok a => exact hf a rfl

theorem map {f : α → β} (h : Agrees x y) : Agrees (f <$> x) (f <$> y) := by
  obtain ⟨rfl, hordinary⟩ := h
  cases x with
  | error e => exact error (hordinary e rfl)
  | ok a => exact .ok (f a)

end Agrees

/-- The run fails in ordinary ways, if it fails. -/
abbrev Ordinary {α : Type} (x : Except Error α) : Prop := Agrees x x

theorem Ordinary.of_ok {α : Type} {x : Except Error α} {a : α} (h : x = .ok a) : Ordinary x :=
  h ▸ .ok a

theorem Agrees.mapM {α β : Type} {f g : α → Except Error β} {as : List α}
    (h : ∀ a ∈ as, Agrees (f a) (g a)) : Agrees (as.mapM f) (as.mapM g) := by
  induction as with
  | nil => exact .ok []
  | cons a as ih =>
    obtain ⟨ha, has⟩ := List.forall_mem_cons.mp h
    rw [List.mapM_cons, List.mapM_cons]
    exact ha.bind fun b _ => (ih has).bind fun bs _ => .ok _

namespace Expr

open ScriptReader.Bracket Phrase

variable {root : Phrase} {line : List Token} (hroot : root.Sound line) {n : Nat} {sub sub' : Sub n}

/-- The readings agree on the phrases that are formed where `root` is read. -/
def SubAgrees (root : Phrase) {n : Nat} (sub sub' : Sub n) : Prop :=
  ∀ (q : Phrase) (hq : q.size < n) (lookup : Lookup), Formed root q →
    Agrees (sub q hq lookup) (sub' q hq lookup)

/-! ## Names and literals -/

theorem ordinary_ofToken (t : Token) (p : Phrase) (lookup : Lookup) :
    Ordinary (ofToken t p lookup) := by
  unfold ofToken
  repeat' split
  all_goals first | exact .ok _ | exact .refuse rfl

theorem ordinary_ofOperand (p : Phrase) (lookup : Lookup) :
    Ordinary (ofOperand p lookup) := by
  unfold ofOperand
  split
  · exact .refuse rfl
  · exact ordinary_ofToken _ _ _
  · exact .refuse rfl

/-! ## Rules -/

include hroot in
theorem ordinary_isEnclosed (b : Bracket) {p : Phrase} (hp : Formed root p) :
    Ordinary (p.isEnclosed b) := by
  rcases exists_isEnclosed b (hroot.formed hp).nested with hno | ⟨hyes, -⟩
  · exact Ordinary.of_ok hno
  · exact Ordinary.of_ok hyes

variable (hsub : SubAgrees root sub sub')

include hsub in
theorem agrees_readEach {ps : List Phrase} {hps : ∀ p ∈ ps, p.size < n}
    (hf : ∀ p ∈ ps, Formed root p) : Agrees (readEach sub ps hps) (readEach sub' ps hps) := by
  induction ps with
  | nil => exact .ok []
  | cons p ps ih =>
    obtain ⟨hp, hf⟩ := List.forall_mem_cons.mp hf
    exact (hsub p _ _ hp).bind fun e _ => (ih hf).bind fun es _ => .ok _

include hsub in
theorem agrees_readSegments {separator : String} (hs : separator ∈ [",", ":"]) {p : Phrase}
    {hp : p.size < n} (hf : Formed root p) :
    Agrees (readSegments sub separator p hp) (readSegments sub' separator p hp) :=
  agrees_readEach hsub fun _ hq => hf.tail (.segment hs hq)

include hroot hsub in
theorem agrees_readArray {p : Phrase} {hp : (p.trim 1).size < n} (hf : Formed root p) :
    Agrees (readArray sub p hp) (readArray sub' p hp) := by
  refine (ordinary_isEnclosed hroot .square hf).bind fun enclosed henclosed => ?_
  cases enclosed with
  | false => exact .refuse rfl
  | true =>
    have htrim : Formed root (p.trim 1) := hf.tail (.enclosed henclosed)
    exact (agrees_readSegments hsub (by decide) htrim).bind fun es _ => .ok _

include hsub in
theorem agrees_readEntries {ps : List Phrase} {hps : ∀ p ∈ ps, p.size < n}
    (hf : ∀ p ∈ ps, Formed root p) :
    Agrees (readEntries sub ps hps) (readEntries sub' ps hps) := by
  induction ps with
  | nil => exact .ok []
  | cons p ps ih =>
    obtain ⟨hp, hf⟩ := List.forall_mem_cons.mp hf
    rw [readEntries, readEntries]
    cases hcolon : p.findOutside? ":" with
    | none => exact .refuse rfl
    | some colon =>
      have hkey : Formed root (p.take colon) := hp.tail (.upTo (by simp) hcolon)
      have hvalue : Formed root (p.drop (colon + 1)) := hp.tail (.behind (by decide) hcolon)
      exact (hsub _ _ _ hkey).bind fun key _ => (hsub _ _ _ hvalue).bind fun value _ =>
        (ih hf).bind fun entries _ => .ok _

include hroot hsub in
theorem agrees_readDictionary {p : Phrase} {hp : (p.trim 1).size < n} (hf : Formed root p) :
    Agrees (readDictionary sub p hp) (readDictionary sub' p hp) := by
  refine (ordinary_isEnclosed hroot .curly hf).bind fun enclosed henclosed => ?_
  cases enclosed with
  | false => exact .refuse rfl
  | true =>
    have htrim : Formed root (p.trim 1) := hf.tail (.enclosed henclosed)
    refine (agrees_readEntries hsub fun q hq => ?_).bind fun entries _ => .ok _
    exact htrim.tail (.segment (by decide) hq)

/-- The name of an argument and the equals sign behind it are no brackets. -/
theorem isPlain_named {p : Phrase} {key equals : Token} {ts : List Token} (h : p.IsScanned)
    (hp : p.tokens = key :: equals :: ts) (hkey : key.kind = .identifier)
    (hequals : p.hasText 1 "=") : ∀ t ∈ p.tokens.take 2, t.IsPlain := by
  rw [hasText, hp, beq_iff_eq] at hequals
  have htext : equals.text = "=" := Option.some.inj hequals
  have hplain : key.IsPlain := (h key (by rw [hp]; simp)).isPlain (by rw [hkey]; decide)
  rw [hp]
  refine List.forall_mem_cons.mpr ⟨hplain, List.forall_mem_singleton.mpr ⟨?_, ?_⟩⟩
  · rw [htext]; rfl
  · rw [htext]; rfl

include hroot hsub in
theorem agrees_readArguments {ps : List Phrase} {hps : ∀ p ∈ ps, p.size < n}
    (hf : ∀ p ∈ ps, Formed root p) :
    Agrees (readArguments sub ps hps) (readArguments sub' ps hps) := by
  induction ps with
  | nil => exact .ok _
  | cons p ps ih =>
    obtain ⟨hp, hf⟩ := List.forall_mem_cons.mp hf
    rw [readArguments, readArguments]
    split
    · rcases hts : p.tokens with _ | ⟨key, _ | ⟨equals, _ | ⟨t, ts⟩⟩⟩
      · exact .refuse rfl
      · exact .refuse rfl
      · exact .refuse rfl
      · dsimp only
        split
        · next hnamed =>
          have hvalue : Formed root (p.drop 2) := hp.tail <| .onward <|
            isPlain_named (hroot.formed hp).isScanned hts hnamed.1 hnamed.2
          exact (hsub _ _ _ hvalue).bind fun value _ => (ih hf).bind fun rest _ => .ok _
        · exact .refuse rfl
    · exact (hsub _ _ _ hp).bind fun e _ => (ih hf).bind fun rest _ => .ok _

include hroot hsub in
theorem agrees_readCall {callee arguments : Phrase} {hc : callee.size < n}
    {ha : (arguments.trim 1).size < n} (hcallee : Formed root callee)
    (harguments : Formed root arguments) :
    Agrees (readCall sub callee arguments hc ha) (readCall sub' callee arguments hc ha) := by
  refine (ordinary_isEnclosed hroot .round harguments).bind fun enclosed henclosed => ?_
  cases enclosed with
  | false => exact .refuse rfl
  | true =>
    have htrim : Formed root (arguments.trim 1) := harguments.tail (.enclosed henclosed)
    refine (agrees_readArguments hroot hsub fun q hq => ?_).bind fun read _ => ?_
    · exact htrim.tail (.segment (by decide) hq)
    · obtain ⟨named, others⟩ := read
      dsimp only
      split
      · exact .ok _
      · exact (hsub _ _ _ hcallee).bind fun f _ => .ok _

include hsub in
theorem agrees_readOperator {op : Operator} {left right : Phrase} {hl : left.size < n}
    {hr : right.size < n} {lookup : Lookup} (hleft : Formed root left)
    (hright : Formed root right) :
    Agrees (readOperator sub op left right hl hr lookup)
      (readOperator sub' op left right hl hr lookup) := by
  unfold readOperator
  split
  · exact .refuse rfl
  split
  · split
    · exact (hsub _ _ _ hright).bind fun e _ => .ok _
    · exact .refuse rfl
  split
  · exact .refuse rfl
  refine (hsub _ _ _ hleft).bind fun l _ => ?_
  dsimp only
  split
  · exact (agrees_readSegments hsub (by decide) hright).map.bind fun r _ => .ok _
  · exact (hsub _ _ _ hright).bind fun r _ => .ok _

/-! ## Phrases -/

/-- A phrase from which parentheses are taken off is formed. -/
theorem formed_unwrap {p q : Phrase} (hf : Formed root p) (hq : p.unwrap = .ok q) :
    Formed root q := by
  fun_induction unwrap p with
  | case1 => cases hq
  | case2 =>
    cases hq
    exact hf
  | case3 p henclosed _ ih => exact ih (hf.tail (.enclosed henclosed)) hq

include hroot in
theorem agrees_readUnwrapped {p : Phrase} {sub sub' : Sub p.size} (hsub : SubAgrees root sub sub')
    (lookup : Lookup) (hf : Formed root p) :
    Agrees (readUnwrapped p sub lookup) (readUnwrapped p sub' lookup) := by
  obtain ⟨d?, hd?⟩ := exists_lowest (hroot.formed hf).nested
  unfold readUnwrapped
  split
  · next he => cases hd?.symm.trans he
  · exact ordinary_ofOperand _ _
  · next d hd =>
    have hleft : Formed root d.left := hf.tail (.left hd)
    have hright : Formed root d.right := hf.tail (.right hd)
    dsimp only
    split
    · exact agrees_readArray hroot hsub hf
    split
    · exact agrees_readDictionary hroot hsub hf
    split
    · exact agrees_readCall hroot hsub hleft hright
    · exact agrees_readOperator hsub hleft hright

include hroot in
theorem agrees_readStep {p : Phrase} {sub sub' : Sub p.size} (hsub : SubAgrees root sub sub')
    (lookup : Lookup) (hf : Formed root p) :
    Agrees (readStep p sub lookup) (readStep p sub' lookup) := by
  obtain ⟨q, hq, -⟩ := exists_unwrap (hroot.formed hf).nested
  unfold readStep
  split
  · exact .ok _
  split
  · next he => cases hq.symm.trans he
  · next hq =>
    exact agrees_readUnwrapped hroot (fun r hr lookup hfr => hsub r _ lookup hfr) lookup
      (formed_unwrap hf hq)

/-! ## Reading within a line -/

open Classical in
/-- Reads a phrase, but gives up at every phrase that is not formed where `root` is read. -/
noncomputable def readWithin (root p : Phrase) (lookup : Lookup) : Except Error Expr :=
  if Formed root p then readStep p (fun q _ lookup => readWithin root q lookup) lookup
  else .error (.outOfRange p.start root.size)
termination_by p.size

include hroot in
/-- **Reading asks for no phrase but those that are formed**, and fails in ordinary ways. -/
theorem agrees_readWithin {p : Phrase} (hf : Formed root p) (lookup : Lookup) :
    Agrees (read p lookup) (readWithin root p lookup) := by
  induction hn : p.size using Nat.strongRecOn generalizing p lookup with
  | ind n ih =>
    subst hn
    rw [read_eq, readWithin, if_pos hf]
    exact agrees_readStep hroot (fun q hq lookup hfq => ih q.size hq hfq lookup rfl) lookup hf

end Expr

end ScriptReader

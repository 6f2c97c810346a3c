import ScriptReader.Proofs.Store.Represented
import ScriptReader.Script.Session

/-!
# Proofs/Store/Refinement — a store is a list of tokens, and perhaps an unfinished one

`Store.run_refines` says that after any operations a store reads as the record after these, and that
between two clearings nothing that is finished moves or changes (`Store.extends_run`).
`Store.tokens_hold` is the use that reading a script makes of it.
-/

namespace ScriptReader

open ScriptReader.Text

namespace Store

variable {r : Record} {s s' : Store} {ts : List Token} {tail : List Char} {t : Token}

/-! ## Reading what is represented -/

theorem unfinished?_of_represents (hs : s.Represents r) : s.unfinished? = r.forming := by
  obtain ⟨ts, forming⟩ := r
  cases forming with
  | none => rw [unfinished?, hs.forming]; rfl
  | some t =>
    rw [unfinished?, hs.forming, Option.map_some, Option.map_some, token,
      text_formingEntry hs.lays (hs.current_lt rfl)]
    rfl

theorem size_eq (s : Store) : s.size = s.tokens.length := by
  rw [size, tokens, List.length_map, Array.length_toList]

theorem getElem?_tokens (i : Nat) (s : Store) : s.tokens[i]? = s.entries[i]?.map s.token := by
  rw [tokens, List.getElem?_map, Array.getElem?_toList]

/-- A place among the finished tokens has an entry, which reads as the token. -/
theorem exists_entry {i : Nat} (h : s.tokens[i]? = some t) :
    ∃ e, s.entry i = .ok e ∧ s.token e = t := by
  rw [getElem?_tokens] at h
  obtain ⟨e, he, rfl⟩ := Option.map_eq_some_iff.mp h
  exact ⟨e, by rw [entry, he], rfl⟩

/-- A place past the finished tokens has none, and so has no other place. -/
theorem entry_eq_error_iff {i : Nat} :
    s.entry i = .error (.outOfRange i s.tokens.length) ↔ s.tokens.length ≤ i := by
  have hlength : s.tokens.length = s.entries.size := (size_eq s).symm
  rw [entry, size_eq, hlength]
  split
  · next e he =>
    have := (Array.getElem?_eq_some_iff.mp he).1
    simp only [reduceCtorEq, false_iff]
    omega
  · next he => simpa using Array.getElem?_eq_none_iff.mp he

theorem latest?_map (s : Store) : s.latest?.map s.token = s.tokens.getLast? := by
  rw [latest?, tokens, List.getLast?_map, Array.getLast?_toList]

/-! ## What is finished stays -/

/-- The entries of `s` are the first ones of `s'`, and their pools keep what is settled. -/
def Extends (s s' : Store) : Prop := s.Keeps s' ∧ s.entries.toList <+: s'.entries.toList

theorem extends_trans {s'' : Store} (h : s.Extends s') (h' : s'.Extends s'') : s.Extends s'' :=
  ⟨keeps_trans h.1 h'.1, h.2.trans h'.2⟩

theorem extends_onCurrent {f : Pool → Pool} (hs : s.Lays ts tail)
    (hf : ∀ p, s.pools[s.current]? = some p → p.Ends tail → p.Keeps (f p)) :
    s.Extends (s.onCurrent f) :=
  ⟨keeps_modify rfl fun p hp => hf p hp (ends_current hs hp), List.prefix_rfl⟩

theorem extends_truncate (hs : s.Lays ts tail) :
    s.Extends (s.onCurrent (Pool.truncate s.currentFilled)) :=
  extends_onCurrent hs fun _ hp hends => currentFilled_eq hp ▸ Pool.keeps_truncate hends

theorem extends_makeRoom (n : Nat) (s : Store) : s.Extends (s.makeRoom n) :=
  ⟨keeps_makeRoom n s, (entries_makeRoom n s).symm ▸ List.prefix_rfl⟩

theorem extends_start (line : Nat) (hs : s.Represents r) : s.Extends (s.start line) := by
  rw [start, hs.forming]
  cases r.forming with
  | none => exact extends_makeRoom 0 s
  | some t => exact extends_truncate hs.lays

theorem extends_moveForming (hs : s.Represents ⟨ts, some t⟩) :
    s.Extends (s.moveForming (s.formingEntry t)) := by
  have hcut := lays_truncate hs.lays
  have hroom := extends_makeRoom (byteCount t.text.toList)
    (s.onCurrent (Pool.truncate s.currentFilled))
  have hwrite := extends_onCurrent (lays_makeRoom (byteCount t.text.toList) hcut)
    fun p _ _ => p.keeps_write t.text
  rw [moveForming, text_formingEntry hs.lays (hs.current_lt rfl), size_formingEntry]
  exact extends_trans (extends_truncate hs.lays) (extends_trans hroom hwrite)

theorem extends_append (c : Char) (hs : s.Represents r) : s.Extends (s.append c) := by
  obtain ⟨ts, forming⟩ := r
  cases forming with
  | none => rw [append, hs.forming]; exact ⟨keeps_of_pools_eq rfl, List.prefix_rfl⟩
  | some t =>
    have hpush : s.Extends (s.onCurrent (Pool.push c)) :=
      extends_onCurrent hs.lays fun p _ _ => p.keeps_push c
    rw [append, hs.forming]
    simp only [Option.map_some]
    split
    · exact hpush
    · have hpushed := represents_push c hs
      have hmove := extends_moveForming hpushed
      rw [← Option.some.inj hpushed.forming] at hmove
      exact extends_trans hpush hmove

theorem extends_finish (hs : s.Represents r) : s.Extends s.finish := by
  rw [finish, hs.forming]
  cases r.forming with
  | none => exact ⟨keeps_of_pools_eq rfl, List.prefix_rfl⟩
  | some t =>
    have hfill := extends_onCurrent (f := Pool.fill (s.formingEntry t).size) hs.lays
      fun p _ _ => p.keeps_fill _
    refine ⟨hfill.1, ?_⟩
    rw [Option.map_some, Array.toList_push]
    exact List.prefix_append _ _

/-- **No operation but clearing moves or changes what is finished.** -/
theorem extends_run {ops : List Op} (hops : .clear ∉ ops) (hs : s.Represents r) :
    s.Extends (run ops s) := by
  induction ops generalizing s r with
  | nil => exact ⟨keeps_of_pools_eq rfl, List.prefix_rfl⟩
  | cons op ops ih =>
    obtain ⟨hop, hops⟩ := not_or.mp (mt List.mem_cons.mpr hops)
    refine extends_trans ?_ (ih hops (represents_apply op hs))
    cases op with
    | start line => exact extends_start line hs
    | append c => exact extends_append c hs
    | classify kind => exact ⟨keeps_of_pools_eq rfl, List.prefix_rfl⟩
    | finish => exact extends_finish hs
    | clear => exact absurd rfl hop

theorem entry_of_extends {i : Nat} {e : Entry} (hs : s.Represents r) (h : s.Extends s')
    (he : s.entry i = .ok e) : s'.entry i = .ok e ∧ s'.text e = s.text e := by
  have hget : s.entries[i]? = some e := by
    rw [entry] at he
    split at he
    · next he' => exact Except.ok.inj he ▸ he'
    · cases he
  refine ⟨?_, text_of_keeps h.1 (hs.lays.settled e (Array.mem_of_getElem? hget))⟩
  obtain ⟨more, hmore⟩ := h.2
  rw [← Array.getElem?_toList] at hget
  have hlt := (List.getElem?_eq_some_iff.mp hget).1
  rw [entry, ← Array.getElem?_toList, ← hmore, List.getElem?_append_left hlt, hget]

/-! ## The refinement -/

/-- **A store is a list of tokens and perhaps an unfinished one.**  After any operations the
finished tokens, read in whichever way, are those of the record, and so is the forming one; a place
has no entry exactly if it is past the last; and up to the next clearing the entry of a place and
its text stay the same. -/
theorem run_refines (ops : List Op) :
    let s := run ops empty
    let r := record ops .empty
    s.tokens = r.finished ∧ s.unfinished? = r.forming ∧
      s.latest?.map s.token = r.finished.getLast? ∧
      (∀ i t, r.finished[i]? = some t → ∃ e, s.entry i = .ok e ∧ s.token e = t) ∧
      (∀ i, s.entry i = .error (.outOfRange i r.finished.length) ↔ r.finished.length ≤ i) ∧
      ∀ later, .clear ∉ later → ∀ i e, s.entry i = .ok e →
        (run later s).entry i = .ok e ∧ (run later s).text e = s.text e := by
  intro s r
  have hs : s.Represents r := represents_run ops represents_empty
  have htokens : s.tokens = r.finished := hs.lays.tokens
  refine ⟨htokens, unfinished?_of_represents hs, ?_, fun i t ht => ?_, fun i => ?_,
    fun later hlater i e he => ?_⟩
  · rw [latest?_map, htokens]
  · exact exists_entry (htokens ▸ ht)
  · rw [← htokens]
    exact entry_eq_error_iff
  · exact entry_of_extends hs (extends_run hlater hs) he

/-! ## Holding the tokens of a statement -/

theorem represents_foldl_append (cs : List Char) (line : Nat) (kind : Kind) (text : String)
    (hs : s.Represents ⟨ts, some ⟨kind, text, line⟩⟩) :
    (cs.foldl (fun s c => s.append c) s).Represents
      ⟨ts, some ⟨kind, text ++ String.ofList cs, line⟩⟩ := by
  induction cs generalizing s text with
  | nil => rwa [String.ofList_nil, String.append_empty]
  | cons c cs ih =>
    have htext : text ++ String.ofList (c :: cs) = text.push c ++ String.ofList cs := by
      rw [← String.toList_inj]
      simp
    exact htext ▸ ih (text.push c) (represents_append c hs)

/-- A formed token has the text that was asked for. -/
theorem represents_form (line : Nat) (text : String) (hs : s.Represents r) :
    (s.form line text.toList).Represents ⟨r.finished, some ⟨.unknown, text, line⟩⟩ := by
  have h := represents_foldl_append text.toList line .unknown "" (represents_start line hs)
  rwa [String.ofList_toList, String.empty_append] at h

theorem represents_add (t : Token) (hs : s.Represents ⟨ts, none⟩) :
    (s.add t).Represents ⟨ts ++ [t], none⟩ :=
  represents_finish (represents_classify t.kind (represents_form t.line t.text hs))

theorem represents_foldl_add (more : List Token) (hs : s.Represents ⟨ts, none⟩) :
    (more.foldl (fun s t => s.add t) s).Represents ⟨ts ++ more, none⟩ := by
  induction more generalizing s ts with
  | nil => rwa [List.append_nil]
  | cons t more ih =>
    have h := ih (represents_add t hs)
    rwa [List.append_assoc] at h

/-- **Whatever a store held, it comes to hold the tokens of the statement**, and what there is of
the token that broke off. -/
theorem represents_hold (scan : Scan) (s : Store) :
    ∃ forming, (s.hold scan).Represents ⟨scan.tokens, forming⟩ := by
  have h := represents_foldl_add scan.tokens (represents_clear s)
  rw [hold]
  cases scan.flaw.bind Flaw.unfinished with
  | none => exact ⟨none, h⟩
  | some t => exact ⟨_, represents_form t.line t.text h⟩

theorem tokens_hold (scan : Scan) (s : Store) : (s.hold scan).tokens = scan.tokens := by
  obtain ⟨forming, h⟩ := represents_hold scan s
  exact h.lays.tokens

end Store

end ScriptReader
